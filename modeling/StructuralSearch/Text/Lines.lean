/-!
# Lines

A line ends with a line feed, which a carriage return may precede; neither belongs to the line. The
last line may lack its line feed, and then keeps a carriage return at its end.
-/
namespace StructuralSearch.Text

/-- Drops one carriage return at the end. -/
def dropReturn (line : List Char) : List Char :=
  if line.getLast? = some '\r' then line.dropLast else line

/-- Splits after each line feed; `line` holds what was read of the current line, last first. -/
def splitLines (line : List Char) : List Char → List (List Char)
  | [] => if line.isEmpty then [] else [line.reverse]
  | c :: rest =>
    if c = '\n' then dropReturn line.reverse :: splitLines [] rest else splitLines (c :: line) rest

def lines (s : String) : List String :=
  (splitLines [] s.toList).map String.ofList

/-- The first line; empty for a text without lines. -/
def firstLine (s : String) : String :=
  (lines s).headD ""

end StructuralSearch.Text
