import StructuralSearch.Search.Finding

/-!
# Replacements

A replacement is text with references to metavariables, each of which gives way to what the
metavariable stands for in a match.
-/
namespace StructuralSearch

namespace Template.Segment

/-- The name that the segment refers to: one after a single dollar sign or after three. -/
def reference? : Segment → Option String
  | char _ => none
  | reference dollars name =>
    if name.isEmpty then none else (MetavariableKind.ofDollars? dollars).map fun _ => name

end Template.Segment

namespace Replacement

open Template (Segment)

/-- The names that a replacement refers to, in order. -/
def references (replacement : String) : List String :=
  (Segment.ofText replacement.toList).filterMap Segment.reference?

/-- What becomes of a segment: a wildcard vanishes, a captured name gives way to its text, and all
else stays as it is. -/
def fill (found : Finding) (segment : Segment) : List Char :=
  match segment.reference? with
  | none => segment.text
  | some name =>
    if name = Template.wildcard then []
    else
      match found.capture? name with
      | some value => value.text.toList
      | none => segment.text

/-- The replacement for one match. Captured text is put in as it is and not read again. -/
def substitute (replacement : String) (found : Finding) : String :=
  String.ofList ((Segment.ofText replacement.toList).flatMap (fill found))

end Replacement
end StructuralSearch
