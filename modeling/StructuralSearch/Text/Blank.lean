/-!
# Blank characters

The property `White_Space` of Unicode, and texts without blanks at their end.
-/
namespace StructuralSearch.Text

/-- The characters that a reader sees as empty space, line ends included. -/
def isBlank (c : Char) : Bool :=
  let n := c.toNat
  (0x9 ≤ n && n ≤ 0xD) || n == 0x20 || n == 0x85 || n == 0xA0 || n == 0x1680 ||
    (0x2000 ≤ n && n ≤ 0x200A) || n == 0x2028 || n == 0x2029 || n == 0x202F || n == 0x205F ||
    n == 0x3000

def trimEnd (s : String) : String :=
  String.ofList (s.toList.reverse.dropWhile isBlank).reverse

def trim (s : String) : String :=
  String.ofList ((trimEnd s).toList.dropWhile isBlank)

/-- No character, or blanks alone. -/
def isAllBlank (s : String) : Bool :=
  s.toList.all isBlank

end StructuralSearch.Text
