import StructuralSearch.Language

/-!
# Arguments

What a user asks for on the command line. Arguments are text, and so are the paths among them.
-/
namespace StructuralSearch

inductive LogFormat where
  | compact
  | json
  deriving DecidableEq, Repr

def LogFormat.name : LogFormat → String
  | compact => "compact"
  | json => "json"

namespace CommandLine

/-- The name of the program. -/
def programName : String := "heddle"

/-- What to look for and where. -/
structure SourceArguments where
  pattern : String
  language : Option Language
  maxMatches : Option Nat
  paths : List String

inductive Command where
  | grep (source : SourceArguments) (json : Bool)
  | replace (source : SourceArguments) (replacement : String) (inPlace : Bool)
  | explain (pattern : String) (language : Language)

/-- The limit that the user sets on the number of matches. -/
def Command.maxMatches : Command → Option Nat
  | grep source _ => source.maxMatches
  | replace source _ _ => source.maxMatches
  | explain _ _ => none

/-- The files that the command works on. -/
def Command.paths : Command → List String
  | grep source _ => source.paths
  | replace source _ _ => source.paths
  | explain _ _ => []

/-- Options that any command takes. -/
structure GlobalOptions where
  configPath : Option String := none
  logFilter : Option String := none
  logFormat : Option LogFormat := none

structure Arguments where
  globals : GlobalOptions
  command : Command

end CommandLine
end StructuralSearch
