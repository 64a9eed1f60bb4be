import StructuralSearch.Text.Decimal

/-!
# Tokens of JSON

Those that a JSON text of counts is made of: punctuation, texts, and numbers without sign, fraction
and exponent.
-/
namespace StructuralSearch.StandIn.Json

inductive Token where
  | openBrace
  | closeBrace
  | openBracket
  | closeBracket
  | colon
  | comma
  | text (s : String)
  | count (n : Nat)
  deriving DecidableEq, Repr

/-- The characters that may stand between tokens. -/
def isSpace (c : Char) : Bool :=
  c == ' ' || c == '\n' || c == '\t' || c == '\r'

def punctuation? : Char → Option Token
  | '\x7b' => some .openBrace
  | '\x7d' => some .closeBrace
  | '[' => some .openBracket
  | ']' => some .closeBracket
  | ':' => some .colon
  | ',' => some .comma
  | _ => none

def hexDigit? (c : Char) : Option Nat :=
  if c.isDigit then some (c.toNat - '0'.toNat)
  else if 'a' ≤ c && c ≤ 'f' then some (c.toNat - 'a'.toNat + 10)
  else if 'A' ≤ c && c ≤ 'F' then some (c.toNat - 'A'.toNat + 10)
  else none

/-- The number that four digits in base sixteen denote. -/
def hexUnit? (a b c d : Char) : Option Nat := do
  let w ← hexDigit? a
  let x ← hexDigit? b
  let y ← hexDigit? c
  let z ← hexDigit? d
  pure (w * 0x1000 + x * 0x100 + y * 0x10 + z)

/-- The character of an escape with one letter. -/
def shortEscape? : Char → Option Char
  | '"' => some '"'
  | '\\' => some '\\'
  | '/' => some '/'
  | 'b' => some '\x08'
  | 'f' => some '\x0c'
  | 'n' => some '\n'
  | 'r' => some '\r'
  | 't' => some '\t'
  | _ => none

/-- The character of one unit of UTF-16, unless it is half of a pair. -/
def unitChar? (unit : Nat) : Option Char :=
  if 0xD800 ≤ unit && unit ≤ 0xDFFF then none else some (Char.ofNat unit)

/-- The character of a pair of units of UTF-16. -/
def pairChar? (high low : Nat) : Option Char :=
  if 0xD800 ≤ high && high ≤ 0xDBFF && 0xDC00 ≤ low && low ≤ 0xDFFF then
    some (Char.ofNat (0x10000 + (high - 0xD800) * 0x400 + (low - 0xDC00)))
  else none

/-- Puts a character in front of a text that was read. -/
def putFirst (c : Char) (read : List Char × List Char) : List Char × List Char :=
  (c :: read.1, read.2)

/-- Reads a text up to its closing quote, and answers it with what follows. -/
def readText? : List Char → Option (List Char × List Char)
  | '"' :: rest => some ([], rest)
  | '\\' :: 'u' :: a :: b :: c :: d :: rest =>
    match hexUnit? a b c d with
    | none => none
    | some unit =>
      match unitChar? unit with
      | some char => (readText? rest).map (putFirst char)
      | none =>
        match rest with
        | '\\' :: 'u' :: a :: b :: c :: d :: rest =>
          match (hexUnit? a b c d).bind (pairChar? unit) with
          | some char => (readText? rest).map (putFirst char)
          | none => none
        | _ => none
  | '\\' :: letter :: rest =>
    match shortEscape? letter with
    | some char => (readText? rest).map (putFirst char)
    | none => none
  | c :: rest => if c.toNat < 0x20 then none else (readText? rest).map (putFirst c)
  | [] => none

theorem length_of_map_putFirst {c : Char} {cs : List Char} {read : List Char × List Char}
    (ih : ∀ {r}, readText? cs = some r → r.2.length < cs.length)
    (h : (readText? cs).map (putFirst c) = some read) : read.2.length < cs.length := by
  obtain ⟨r, hr, rfl⟩ := Option.map_eq_some_iff.1 h
  have := ih hr
  exact this

/-- What follows a text is shorter than what it was read from. -/
theorem length_of_readText? {cs : List Char} {read : List Char × List Char}
    (h : readText? cs = some read) : read.2.length < cs.length := by
  fun_induction readText? cs generalizing read
  case case1 => cases h; simp
  all_goals try contradiction
  all_goals
    rename_i ih
    have := length_of_map_putFirst ih h
    simp only [List.length_cons]
    omega

/-- The number of a run of digits, which has no zero in front of others. -/
def readNumber? (digits : List Char) : Option Nat :=
  match digits with
  | '0' :: _ :: _ => none
  | _ => Text.readDigits? digits

/-- The tokens of a text; nothing when a part of it is no token. -/
def tokens? : List Char → Option (List Token)
  | [] => some []
  | c :: rest =>
    if isSpace c then tokens? rest
    else if c = '"' then
      match h : readText? rest with
      | some (text, after) =>
        have : after.length < rest.length := length_of_readText? h
        (tokens? after).map (.text (String.ofList text) :: ·)
      | none => none
    else if c.isDigit then
      let digits := rest.takeWhile Char.isDigit
      match readNumber? (c :: digits) with
      | some n => (tokens? (rest.drop digits.length)).map (.count n :: ·)
      | none => none
    else
      match punctuation? c with
      | some token => (tokens? rest).map (token :: ·)
      | none => none
termination_by cs => cs.length
decreasing_by all_goals simp_all; try omega

end StructuralSearch.StandIn.Json
