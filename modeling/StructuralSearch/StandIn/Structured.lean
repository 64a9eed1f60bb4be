import StructuralSearch.StandIn.Toml.Document
import StructuralSearch.Text.Letters

/-!
# Structured values

A variable of the environment can hold a list in brackets or a table in braces. Items stand between
commas, and a comma may follow the last one; an item of a table has a key and an equals sign in
front. A value that begins with a truth value is that truth value: only blanks may stand behind it.
No setting takes a list or a table, so it is enough to know whether a text is one.
-/
namespace StructuralSearch.StandIn.Structured

/-- The blanks that may stand around keys and values. -/
def isGap (c : Char) : Bool :=
  c.isWhitespace || c == '\x0c'

def skipGap (cs : List Char) : List Char :=
  cs.dropWhile isGap

/-- The characters that end a value without quotes. -/
def isSeparator (c : Char) : Bool :=
  c == ',' || c == '[' || c == ']' || c == '\x7b' || c == '\x7d'

/-- The truth values, which can be written in letters of either case. -/
def truthValues : List String :=
  ["true", "false"]

/-- The truth value that a text begins with, even as a part of a longer word. -/
def truthValue? (cs : List Char) : Option String :=
  truthValues.find? fun word => Text.sameLetters (String.ofList (cs.take word.length)) word

/-- What follows a value without quotes: a truth value ends with its letters, and any other, which
may be empty, in front of a separator. -/
def skipValue (cs : List Char) : List Char :=
  match truthValue? cs with
  | some word => cs.drop word.length
  | none => cs.dropWhile fun c => !isSeparator c

inductive Bracket where
  | list
  | table
  deriving DecidableEq, Repr

def Bracket.closing : Bracket → Char
  | list => ']'
  | table => '\x7d'

/-- What follows the name of an item: letters, digits, dashes and underscores, or a text between
quotes. -/
def afterName? (cs : List Char) : Option (List Char) :=
  match cs with
  | '"' :: rest => (Toml.readText? rest).map (·.2)
  | _ =>
    if (cs.takeWhile Toml.isKeyChar).isEmpty then none else some (cs.dropWhile Toml.isKeyChar)

/-- What follows the name of an item and the equals sign behind it. -/
def afterKey? (cs : List Char) : Option (List Char) :=
  match (afterName? (skipGap cs)).map skipGap with
  | some ('=' :: rest) => some rest
  | _ => none

theorem length_skipGap_le (cs : List Char) : (skipGap cs).length ≤ cs.length :=
  Toml.length_dropWhile_le isGap cs

theorem length_skipValue_le (cs : List Char) : (skipValue cs).length ≤ cs.length := by
  unfold skipValue
  split
  · exact (List.drop_sublist _ cs).length_le
  · exact Toml.length_dropWhile_le _ cs

theorem length_of_skipGap {cs rest : List Char} {c : Char} (h : skipGap cs = c :: rest) :
    rest.length < cs.length := by
  have := length_skipGap_le cs
  rw [h, List.length_cons] at this
  omega

theorem length_of_afterName? {cs rest : List Char} (h : afterName? cs = some rest) :
    rest.length ≤ cs.length := by
  unfold afterName? at h
  split at h
  · obtain ⟨r, hr, rfl⟩ := Option.map_eq_some_iff.1 h
    have := Toml.length_of_readText? hr
    simp only [List.length_cons]
    omega
  · split at h
    · cases h
    · cases h
      exact Toml.length_dropWhile_le Toml.isKeyChar cs

theorem length_of_afterKey? {cs rest : List Char} (h : afterKey? cs = some rest) :
    rest.length < cs.length := by
  unfold afterKey? at h
  split at h
  · rename_i behind hb
    cases h
    obtain ⟨name, hn, hg⟩ := Option.map_eq_some_iff.1 hb
    have := length_of_afterName? hn
    have := length_skipGap_le cs
    have := length_skipGap_le name
    rw [hg, List.length_cons] at this
    omega
  · cases h

/-- What has to come next in a structured value. -/
inductive Awaited where
  | item
  | value
  | separator
  deriving DecidableEq, Repr

/-- How many of the others can be next before a character is read. -/
def Awaited.rank : Awaited → Nat
  | item => 2
  | value => 1
  | separator => 0

/-- All the brackets that are open are closed, innermost first, and then the text ends. -/
def closesFrom (awaited : Awaited) (opened : List Bracket) (cs : List Char) : Bool :=
  match awaited, opened with
  | .item, [] => false
  | .item, bracket :: outer =>
    match cs with
    | [] => false
    | c :: rest =>
      if c = bracket.closing then closesFrom .separator outer rest
      else
        match bracket with
        | .list => closesFrom .value (bracket :: outer) (c :: rest)
        | .table =>
          match h : afterKey? (c :: rest) with
          | some after =>
            have : after.length < (c :: rest).length := length_of_afterKey? h
            closesFrom .value (bracket :: outer) after
          | none => false
  | .value, _ =>
    match h : skipGap cs with
    | '[' :: rest =>
      have : rest.length < cs.length := length_of_skipGap h
      closesFrom .item (.list :: opened) rest
    | '\x7b' :: rest =>
      have : rest.length < cs.length := length_of_skipGap h
      closesFrom .item (.table :: opened) rest
    | '"' :: rest =>
      match ht : Toml.readText? rest with
      | some (_, after) =>
        have : after.length < cs.length :=
          Nat.lt_trans (Toml.length_of_readText? ht) (length_of_skipGap h)
        closesFrom .separator opened after
      | none => false
    | '\'' :: c :: '\'' :: rest =>
      have : (c :: '\'' :: rest).length < cs.length := length_of_skipGap h
      closesFrom .separator opened rest
    | '\'' :: _ => false
    | rest =>
      have : (skipValue rest).length ≤ cs.length :=
        Nat.le_trans (length_skipValue_le rest) (h ▸ length_skipGap_le cs)
      closesFrom .separator opened (skipValue rest)
  | .separator, [] => (skipGap cs).isEmpty
  | .separator, bracket :: outer =>
    match h : skipGap cs with
    | [] => false
    | c :: rest =>
      have : rest.length < cs.length := length_of_skipGap h
      if c = ',' then closesFrom .item opened rest
      else c = bracket.closing && closesFrom .separator outer rest
termination_by 3 * cs.length + awaited.rank
decreasing_by
  all_goals simp only [Awaited.rank, List.length_cons] at *; omega

/-- The text is one value: a list, a table, or another in which no separator stands by itself. -/
def isValue (cs : List Char) : Bool :=
  closesFrom .value [] cs

end StructuralSearch.StandIn.Structured
