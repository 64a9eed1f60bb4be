import StructuralSearch.CommandLine.Program
import StructuralSearch.StandIn.Limits
import StructuralSearch.StandIn.Record
import StructuralSearch.StandIn.Settings

/-!
# Running the program

To be run by itself, the program is given stand-ins for its packages. They cover what is common in
arguments, settings files and variables and take every text for a log filter. What is proved of the
program holds with any packages.
-/
namespace StructuralSearch.CommandLine

def standIns : Packages where
  readArguments := StandIn.readArguments
  loadSettings := StandIn.loadSettings
  checkLogFilter _ := .ok ()
  startLog _ _ := .ok ()
  writeRecord := StandIn.writeRecord

/-- What a run depends on besides packages. -/
structure Surroundings where
  parser : Parser
  environment : Environment
  files : FileSystem

/-- The surroundings of a process with stand-ins that has just begun. -/
def Surroundings.world (s : Surroundings) : World where
  parser := s.parser
  packages := standIns
  environment := s.environment
  files := s.files
  logs := false

/-- Runs the program with stand-ins. -/
def run (surroundings : Surroundings) (arguments : List String) : Report :=
  surroundings.world.run arguments

/-- The paths that a run may follow to settings files, and those to other files. -/
def pathsFollowed (environment : Environment) (arguments : List String) :
    List String × List String :=
  match StandIn.readArguments arguments with
  | .ok arguments =>
    (arguments.globals.configPath.toList ++ StandIn.Settings.filesLookedFor environment,
      arguments.command.paths)
  | .error _ => ([], [])

end StructuralSearch.CommandLine
