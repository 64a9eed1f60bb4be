import StructuralSearch.StandIn.Structured
import StructuralSearch.Text.Blank
import StructuralSearch.Text.Letters

/-!
# Variables

A variable of the environment sets the key that its name has behind the name of the program. Its
value can be read as a count, a truth value, a list and so on; it is a text when nothing else fits.
-/
namespace StructuralSearch.StandIn

namespace SettingValue

/-- Digits with a point before, among or behind them, and an exponent. -/
def isUnsignedFraction (cs : List Char) : Bool :=
  let whole := cs.takeWhile Char.isDigit
  match cs.dropWhile Char.isDigit with
  | '.' :: rest =>
    let part := rest.takeWhile Char.isDigit
    !(whole.isEmpty && part.isEmpty) && isExponent (rest.dropWhile Char.isDigit)
  | _ => false
where
  isExponent : List Char → Bool
    | [] => true
    | 'e' :: rest | 'E' :: rest => isPower rest
    | _ => false
  isPower : List Char → Bool
    | '+' :: digits | '-' :: digits => !digits.isEmpty && digits.all Char.isDigit
    | digits => !digits.isEmpty && digits.all Char.isDigit

/-- A number with a point. -/
def isFraction : List Char → Bool
  | '+' :: rest | '-' :: rest => isUnsignedFraction rest
  | cs => isUnsignedFraction cs

/-- Minus the number of the digits, unless that is below all integers. -/
def ofNegative? (digits : List Char) : Option SettingValue :=
  (Text.readDigits? digits).bind fun n =>
    if n = 0 then some (.count 0) else if n ≤ Toml.integerBound then some .other else none

/-- The value of a number, if a text is one. -/
def ofNumber? (s : String) : Option SettingValue :=
  match s.toList with
  | '-' :: digits => ofNegative? digits
  | _ => (Text.readCount? s).map .count

/-- The value of a text without brackets and quotes. -/
def ofWord (s : String) : SettingValue :=
  if Structured.truthValues.any (Text.sameLetters s) || isFraction s.toList then .other
  else (ofNumber? s).getD (.text s)

/-- The value of a variable. Blanks around it do not count. Commas make it a list. -/
def ofVariable (s : String) : SettingValue :=
  let s := Text.trim s
  match s.toList with
  | '"' :: rest =>
    match Toml.readText? rest with
    | some (quoted, []) => .text (String.ofList quoted)
    | _ => .text s
  | '\'' :: _ => .text s
  | '[' :: _ | '\x7b' :: _ =>
    if Structured.isValue s.toList then .other else .text s
  | cs =>
    if cs.contains ',' then .other
    else if cs.any Structured.isSeparator then .text s
    else ofWord s

end SettingValue

namespace Variable

/-- What the names of variables begin with. -/
def nameStart : String := "HEDDLE_"

/-- The name of the variable for a key, in capital letters. -/
def usualName (key : String) : String :=
  nameStart ++ key.map Char.toUpper

/-- Two underscores in a name stand for a dot. -/
def withDots : List Char → List Char
  | '_' :: '_' :: rest => '.' :: withDots rest
  | c :: rest => c :: withDots rest
  | [] => []

/-- The parts of the key that a name stands for, in whatever case its letters are. -/
def keyParts (name : String) : List String :=
  let name := (Text.lowercase name).toList
  let start := (Text.lowercase nameStart).toList
  if start.isPrefixOf name then
    ((withDots (name.drop start.length)).splitOn '.').map String.ofList |>.takeWhile (· ≠ "")
  else []

/-- What a variable sets: no setting has parts of its own. -/
def setting? (name value : String) : Option (String × SettingValue) :=
  match keyParts name with
  | [] => none
  | [key] => some (key, .ofVariable value)
  | key :: _ => some (key, .other)

end Variable
end StructuralSearch.StandIn
