import StructuralSearch.Language
import StructuralSearch.Pattern.Checked
import StructuralSearch.Text.Bytes

/-!
# Faults of searching and replacing

Each constructor is a cause; `message` gives its wording.
-/
namespace StructuralSearch

/-- What is wrong with the metavariables of a template. -/
inductive MetavariableFault where
  /-- At the byte offset, neither one dollar sign nor three. -/
  | badPrefix (offset length : Nat)
  /-- At the byte offset, dollar signs without a name. -/
  | noName (offset : Nat)
  /-- A run's name is used again. -/
  | repeatedRun (name : String)
  deriving DecidableEq, Repr

def MetavariableFault.message : MetavariableFault → String
  | badPrefix offset length =>
    "metavariable at offset " ++ toString offset ++ " has invalid '$' prefix length (" ++
      toString length ++ ")"
  | noName offset => "metavariable at offset " ++ toString offset ++ " has no valid name"
  | repeatedRun name => "$" ++ name ++ " binds a run of nodes and may appear only once"

/-- What is wrong with the code of a template. -/
inductive TemplateFault where
  | containsErrors
  | notOneNode
  deriving DecidableEq, Repr

def TemplateFault.message : TemplateFault → String
  | containsErrors => "template contains syntax errors"
  | notOneNode => "template must denote exactly one node"

inductive SearchFault where
  | unknownExtension (extension : String)
  | noExtension (path : String)
  /-- The parser gave no tree. -/
  | noTree (language : Language)
  | badTemplate (language : Language) (fault : TemplateFault)
  | badMetavariable (fault : MetavariableFault)
  | badPattern (fault : PatternFault)
  /-- A replacement refers to a name that its template does not have. -/
  | unboundName (name : String)
  | otherLanguage (rule target : Language)
  | splitsCharacter (range : Text.ByteRange)
  deriving DecidableEq, Repr

def SearchFault.message : SearchFault → String
  | unknownExtension extension => "unsupported file extension: " ++ extension
  | noExtension path =>
    "cannot infer a language for " ++ path ++ ": the path has no extension"
  | noTree language => "tree-sitter produced no tree for " ++ language.name ++ " source"
  | badTemplate language fault =>
    "invalid template for " ++ language.name ++ ": " ++ fault.message
  | badMetavariable fault => "invalid metavariable syntax: " ++ fault.message
  | badPattern fault => "malformed pattern: " ++ fault.message
  | unboundName name =>
    "invalid replacement template: replacement references undefined metavariable: $" ++ name
  | otherLanguage rule target =>
    "rewrite rule is written in " ++ rule.name ++ " but the source is " ++ target.name
  | splitsCharacter range => "match at bytes " ++ range.toText ++ " splits a character"

/-- The language of a file, told by its extension. -/
def Language.ofFile (path : String) : Except SearchFault Language :=
  match Path.extension? path with
  | none => .error (.noExtension path)
  | some extension =>
    match ofExtension? extension with
    | some language => .ok language
    | none => .error (.unknownExtension extension)

end StructuralSearch
