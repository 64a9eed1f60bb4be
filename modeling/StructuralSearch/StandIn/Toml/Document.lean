import StructuralSearch.StandIn.SettingValue
import StructuralSearch.StandIn.Toml.Text
import StructuralSearch.Text.Decimal

/-!
# Settings in TOML

A document has one setting a line: a key, an equals sign, and an integer or a text. A key can have
several parts with dots between them; it then sets something within its first part. No key may be
set twice, nor may one lie within another. Blank lines and comments are allowed.
-/
namespace StructuralSearch.StandIn.Toml

def skipSpace (cs : List Char) : List Char :=
  cs.dropWhile isSpace

/-- What follows a comment, if one begins here. -/
def skipComment (cs : List Char) : List Char :=
  match cs with
  | '#' :: rest => rest.dropWhile isPlain
  | _ => cs

/-- What follows the line, if nothing but a comment is left of it. -/
def nextLine? (cs : List Char) : Option (List Char) :=
  match skipComment (skipSpace cs) with
  | [] => some []
  | '\n' :: rest => some rest
  | _ => none

theorem length_skipSpace_le (cs : List Char) : (skipSpace cs).length ≤ cs.length :=
  length_dropWhile_le isSpace cs

theorem length_skipComment_le (cs : List Char) : (skipComment cs).length ≤ cs.length := by
  unfold skipComment
  split
  · rename_i rest
    have := length_dropWhile_le isPlain rest
    simp only [List.length_cons]
    omega
  · exact Nat.le_refl _

theorem length_of_nextLine? {cs rest : List Char} (h : nextLine? cs = some rest) :
    rest.length ≤ cs.length - 1 := by
  have hs := length_skipSpace_le cs
  have hc := length_skipComment_le (skipSpace cs)
  unfold nextLine? at h
  split at h
  · cases h
    simp
  · rename_i hr
    cases h
    rw [hr, List.length_cons] at hc
    omega
  · cases h

def isKeyChar (c : Char) : Bool :=
  c.isAlphanum || c == '_' || c == '-'

/-- Reads a part of a key: letters, digits, dashes and underscores, or a text between
quotes. -/
def readKeyPart? (cs : List Char) : Option (List Char × List Char) :=
  match cs with
  | '"' :: rest => readText? rest
  | '\'' :: rest => readLiteral? rest
  | _ =>
    if (cs.takeWhile isKeyChar).isEmpty then none
    else some (cs.takeWhile isKeyChar, cs.dropWhile isKeyChar)

theorem length_of_readKeyPart? {cs : List Char} {read : List Char × List Char}
    (h : readKeyPart? cs = some read) : read.2.length < cs.length := by
  unfold readKeyPart? at h
  split at h
  · have := length_of_readText? h
    simp only [List.length_cons]
    omega
  · have := length_of_readLiteral? h
    simp only [List.length_cons]
    omega
  · split at h
    · cases h
    · rename_i hne
      cases h
      cases cs with
      | nil => exact absurd rfl hne
      | cons c rest =>
        by_cases hc : isKeyChar c
        · have := length_dropWhile_le isKeyChar rest
          simp only [List.dropWhile_cons, hc, if_true, List.length_cons]
          omega
        · simp [hc] at hne

/-- Reads the parts of a key, and the equals sign behind them. -/
def readKey? (cs : List Char) : Option (List String × List Char) :=
  match h : readKeyPart? cs with
  | none => none
  | some (part, after) =>
    match ha : skipSpace after with
    | '.' :: rest =>
      have : (skipSpace rest).length < cs.length := by
        have := length_of_readKeyPart? h
        have := length_skipSpace_le after
        have := length_skipSpace_le rest
        simp_all only [List.length_cons]
        omega
      (readKey? (skipSpace rest)).map fun read => (String.ofList part :: read.1, read.2)
    | '=' :: rest => some ([String.ofList part], rest)
    | _ => none
termination_by cs.length

theorem length_of_readKey? {cs : List Char} {read : List String × List Char}
    (h : readKey? cs = some read) : read.2.length < cs.length := by
  fun_induction readKey? cs generalizing read with
  | case1 => cases h
  | case2 cs part after hp rest ha shorter ih =>
    obtain ⟨r, hr, rfl⟩ := Option.map_eq_some_iff.1 h
    have := ih hr
    dsimp only
    omega
  | case3 cs part after hp rest ha =>
    cases h
    have := length_of_readKeyPart? hp
    have := length_skipSpace_le after
    rw [ha, List.length_cons] at this
    dsimp only at *
    omega
  | case4 => cases h

/-- The number that a character stands for as a digit in a base of at most sixteen. -/
def digit? (base : Nat) (c : Char) : Option Nat :=
  (Json.hexDigit? c).filter (· < base)

/-- The digits of a number. Single underscores may stand between them. -/
def readDigits? (base : Nat) : List Char → Option (List Nat)
  | [] => none
  | [c] => (digit? base c).map ([·])
  | c :: '_' :: rest => do return (← digit? base c) :: (← readDigits? base rest)
  | c :: rest => do return (← digit? base c) :: (← readDigits? base rest)

/-- One above the greatest integer. -/
def integerBound : Nat := 0x8000000000000000

def ofDigits (base : Nat) (digits : List Nat) : Nat :=
  digits.foldl (fun n d => base * n + d) 0

/-- A decimal number, without a zero in front of other digits. -/
def readDecimal? (cs : List Char) : Option Nat :=
  match readDigits? 10 cs with
  | none | some (0 :: _ :: _) => none
  | some digits => some (ofDigits 10 digits)

/-- A count that is an integer. -/
def ofCount? (n : Nat) : Option SettingValue :=
  if n < integerBound then some (.count n) else none

/-- Reads an integer: decimal, where it may have a sign, or in another base, which then stands in
front. -/
def readInteger? : List Char → Option SettingValue
  | '0' :: 'x' :: digits => ((readDigits? 16 digits).map (ofDigits 16)).bind ofCount?
  | '0' :: 'o' :: digits => ((readDigits? 8 digits).map (ofDigits 8)).bind ofCount?
  | '0' :: 'b' :: digits => ((readDigits? 2 digits).map (ofDigits 2)).bind ofCount?
  | '-' :: digits =>
    (readDecimal? digits).bind fun n =>
      if n = 0 then some (.count 0) else if n ≤ integerBound then some .other else none
  | '+' :: digits => (readDecimal? digits).bind ofCount?
  | digits => (readDecimal? digits).bind ofCount?

/-- A text of several lines does not begin with the line end behind its opening quotes. -/
def dropLineEnd : List Char → List Char
  | '\n' :: rest => rest
  | cs => cs

/-- The characters that a value without quotes can have. -/
def isValueChar (c : Char) : Bool :=
  !isSpace c && c != '#' && c != '\n'

def asText (read : List Char × List Char) : SettingValue × List Char :=
  (.text (String.ofList read.1), read.2)

/-- Reads the value of a setting. -/
def readValue? (cs : List Char) : Option (SettingValue × List Char) :=
  match cs with
  | '"' :: '"' :: '"' :: rest => (readLines? (dropLineEnd rest)).map asText
  | '\'' :: '\'' :: '\'' :: rest => (readLiteralLines? (dropLineEnd rest)).map asText
  | '"' :: rest => (readText? rest).map asText
  | '\'' :: rest => (readLiteral? rest).map asText
  | _ => (readInteger? (cs.takeWhile isValueChar)).map (·, cs.dropWhile isValueChar)

theorem length_dropLineEnd_le (cs : List Char) : (dropLineEnd cs).length ≤ cs.length := by
  unfold dropLineEnd
  split <;> simp

theorem length_of_map_asText {next : Option (List Char × List Char)} {n : Nat}
    {read : SettingValue × List Char} (hn : ∀ r, next = some r → r.2.length ≤ n)
    (h : next.map asText = some read) : read.2.length ≤ n := by
  obtain ⟨r, hr, rfl⟩ := Option.map_eq_some_iff.1 h
  exact hn r hr

theorem length_of_readValue? {cs : List Char} {read : SettingValue × List Char}
    (h : readValue? cs = some read) : read.2.length ≤ cs.length := by
  unfold readValue? at h
  split at h
  · rename_i rest
    refine length_of_map_asText (fun r hr => ?_) h
    have := length_of_readLines? hr
    have := length_dropLineEnd_le rest
    simp only [List.length_cons]
    omega
  · rename_i rest
    refine length_of_map_asText (fun r hr => ?_) h
    have := length_of_readLiteralLines? hr
    have := length_dropLineEnd_le rest
    simp only [List.length_cons]
    omega
  · refine length_of_map_asText (fun r hr => ?_) h
    have := length_of_readText? hr
    simp only [List.length_cons]
    omega
  · refine length_of_map_asText (fun r hr => ?_) h
    have := length_of_readLiteral? hr
    simp only [List.length_cons]
    omega
  · obtain ⟨_, _, rfl⟩ := Option.map_eq_some_iff.1 h
    exact length_dropWhile_le isValueChar cs

/-- A line that sets something. The key has at least one part. -/
structure Setting where
  key : List String
  value : SettingValue

/-- Reads a line with a setting, and answers what follows the line. -/
def readSetting? (cs : List Char) : Option (Setting × List Char) := do
  let (key, afterKey) ← readKey? (skipSpace cs)
  let (value, afterValue) ← readValue? (skipSpace afterKey)
  return ({ key, value }, ← nextLine? afterValue)

theorem length_of_readSetting? {cs : List Char} {read : Setting × List Char}
    (h : readSetting? cs = some read) : read.2.length < cs.length := by
  simp only [readSetting?, Option.bind_eq_bind, Option.bind_eq_some_iff, Option.pure_def,
    Option.some.injEq] at h
  obtain ⟨key, hk, value, hv, rest, hr, rfl⟩ := h
  have := length_of_readKey? hk
  have := length_of_readValue? hv
  have := length_of_nextLine? hr
  have := length_skipSpace_le cs
  have := length_skipSpace_le key.2
  dsimp only
  omega

/-- Neither of two keys is the other one or lies within it. -/
def areApart (first second : List String) : Bool :=
  !first.isPrefixOf second && !second.isPrefixOf first

/-- Reads the settings of a document behind those that are known. -/
def readSettings? (known : List Setting) : List Char → Option (List Setting)
  | [] => some known
  | c :: cs =>
    match h : nextLine? (c :: cs) with
    | some rest =>
      have : rest.length ≤ cs.length := length_of_nextLine? h
      readSettings? known rest
    | none =>
      match h : readSetting? (c :: cs) with
      | none => none
      | some (setting, rest) =>
        have : rest.length ≤ cs.length := Nat.le_of_lt_succ (length_of_readSetting? h)
        if known.all fun k => areApart k.key setting.key then
          readSettings? (known ++ [setting]) rest
        else none
termination_by cs => cs.length

/-- The text without a mark for the order of bytes, and with a line feed for each line end. -/
def plainLines (text : String) : List Char :=
  match text.toList with
  | '\uFEFF' :: cs => joinLineEnds cs
  | cs => joinLineEnds cs
where
  joinLineEnds : List Char → List Char
    | '\r' :: '\n' :: rest => '\n' :: joinLineEnds rest
    | c :: rest => c :: joinLineEnds rest
    | [] => []

/-- What is set for the first part of a key: no setting has parts of its own. -/
def Setting.outermost? (setting : Setting) : Option (String × SettingValue) :=
  match setting.key with
  | [] => none
  | [key] => some (key, setting.value)
  | key :: _ => some (key, .other)

/-- The settings of a document, by the first parts of their keys. -/
def read? (text : String) : Option SettingsLayer :=
  (readSettings? [] (plainLines text)).map (·.filterMap Setting.outermost?)

end StructuralSearch.StandIn.Toml
