/-!
# Decimal numbers

Natural numbers below a bound, written in decimal digits.
-/
namespace StructuralSearch.Text

def digitsValue (digits : List Char) : Nat :=
  digits.foldl (fun n d => 10 * n + (d.toNat - '0'.toNat)) 0

/-- One above the greatest number that a count or a size can be. -/
def countBound : Nat := 0x10000000000000000

/-- Reads digits, at least one, that denote a number below `countBound`. -/
def readDigits? (digits : List Char) : Option Nat :=
  if digits.isEmpty || !digits.all Char.isDigit then none
  else if digitsValue digits < countBound then some (digitsValue digits) else none

/-- Reads a count: digits, which a plus sign may precede. -/
def readCount? (s : String) : Option Nat :=
  match s.toList with
  | '+' :: digits => readDigits? digits
  | digits => readDigits? digits

end StructuralSearch.Text
