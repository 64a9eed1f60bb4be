import StructuralSearch.Search.Finding
import StructuralSearch.Text.Lines

/-!
# Match records

A match is shown on one line: as its path, its position and the first line of its text, or as a
record of all that is known of it.
-/
namespace StructuralSearch

/-- A match as it is told to a program. -/
structure MatchRecord where
  path : String
  line : Nat
  column : Nat
  endLine : Nat
  endColumn : Nat
  text : String
  /-- The text of each capture, by names in increasing order. -/
  captures : List (String × String)

/-- Lines and columns are within the range of positions, and the names in order. -/
structure MatchRecord.WellFormed (r : MatchRecord) : Prop where
  positions : ∀ n ∈ [r.line, r.column, r.endLine, r.endColumn], n ≤ Text.Position.greatest
  names : (r.captures.map (·.1)).Pairwise (· < ·)

namespace Finding

/-- The line for a reader. -/
def toLine (m : Finding) (path : String) : String :=
  path ++ ":" ++ m.node.startPosition.toText ++ ": " ++ Text.firstLine m.text ++ "\n"

/-- The record of the match in the file at the path. -/
def toRecord (m : Finding) (path : String) : MatchRecord where
  path := path
  line := m.node.startPosition.line
  column := m.node.startPosition.column
  endLine := m.node.endPosition.line
  endColumn := m.node.endPosition.column
  text := m.text
  captures := m.captures.map fun c => (c.1, c.2.text)

end Finding
end StructuralSearch
