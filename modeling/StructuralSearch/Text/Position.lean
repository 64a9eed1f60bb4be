/-!
# Lines and columns

A position names a place by its line and its column, both counted from one, the column in bytes.
-/
namespace StructuralSearch.Text

structure Position where
  line : Nat
  column : Nat
  deriving DecidableEq, Repr, Inhabited

namespace Position

def toText (p : Position) : String :=
  toString p.line ++ ":" ++ toString p.column

/-- The greatest line or column that is reported; what lies beyond counts as this. -/
def greatest : Nat := 0xFFFFFFFF

/-- The byte of a line feed. -/
def lineFeed : UInt8 := 10

/-- The place `offset` bytes into the text: a line begins after each line feed. -/
def ofOffset (s : String) (offset : Nat) : Position :=
  let before := s.toByteArray.data.toList.take offset
  let sinceLine := before.reverse.takeWhile (· != lineFeed)
  { line := min (before.count lineFeed + 1) greatest
    column := min (sinceLine.length + 1) greatest }

end Position
end StructuralSearch.Text
