import StructuralSearch.CommandLine.Arguments
import StructuralSearch.Search.Limits

/-!
# Settings

What a run is set to, and what is passed on to whoever loads the settings.
-/
namespace StructuralSearch

structure Settings where
  logFilter : String := "warn"
  logFormat : LogFormat := .compact
  limits : SearchLimits := {}

/-- The variables of the environment, by name. -/
abbrev Environment := List (String × String)

namespace CommandLine

/-- The name under which settings are loaded. -/
def packageName : String := "heddle-cli"

/-- An option with its value; nothing when it is left open. -/
def passedOn (option : String) : Option String → List String
  | some value => [option, value]
  | none => []

/-- The arguments that settings are loaded with: the options given that are settings. -/
def Arguments.forSettings (arguments : Arguments) : List String :=
  packageName ::
    (passedOn "--config-path" arguments.globals.configPath ++
      passedOn "--log-filter" arguments.globals.logFilter ++
      passedOn "--log-format" (arguments.globals.logFormat.map LogFormat.name) ++
      passedOn "--max-matches" (arguments.command.maxMatches.map toString))

end CommandLine
end StructuralSearch
