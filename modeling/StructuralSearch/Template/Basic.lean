import StructuralSearch.Source.Parsed
import StructuralSearch.Template.Conversion
import StructuralSearch.Template.Fragment

/-!
# Templates

A template is code with metavariables, compiled to a pattern for the trees of its language.
-/
namespace StructuralSearch

structure Template where
  source : String
  language : Language
  metavariables : List Template.Metavariable
  pattern : CheckedPattern

namespace Template

/-- Parses the code of a template, as a file or else as a fragment, and tells which. -/
def parseCode (parser : Parser) (language : Language) (code : String) :
    Except SearchFault (ParsedSource × Bool) := do
  let file ← parser.parse language code
  if file.hasError then
    let fragment ← parser.parse language (wrap language code)
    if fragment.hasError then .error (.badTemplate language .containsErrors)
    else .ok (fragment, true)
  else .ok (file, false)

def compile (parser : Parser) (language : Language) (source : String) :
    Except SearchFault Template := do
  let (code, metavariables) ← (withPlaceholders source).mapError .badMetavariable
  let (parsed, wrapped) ← parseCode parser language code
  match locate? parsed wrapped with
  | none => .error (.badTemplate language .notOneNode)
  | some n =>
    let pattern ← (CheckedPattern.ofPattern (toPattern [] n .root).1).mapError .badPattern
    .ok { source, language, metavariables, pattern }

/-- The kind of the first metavariable of a name. Wildcards have no name. -/
def kindOf? (t : Template) (name : String) : Option MetavariableKind :=
  (t.metavariables.find? fun m => m.name == name && !m.isWildcard).map (·.kind)

end Template
end StructuralSearch
