import StructuralSearch.CommandLine.Record
import StructuralSearch.CommandLine.Settings
import StructuralSearch.Files.FileSystem

/-!
# Packages

A run leaves four tasks to packages: reading the arguments, loading settings, logging, and writing
records as JSON. What they take and give is fixed here and how they do it is not. What the program
counts on is named: `RequiresPaths` of the reader of arguments, `WritesRecords` of the writer. Log
lines go past both outputs of a run, straight to the process's error output, so logging is only what
can go wrong in setting it up.
-/
namespace StructuralSearch.CommandLine

/-- What is told to a user whose arguments are no command, as after a mistake or a call for help. -/
structure Refusal where
  text : String
  toStderr : Bool
  exitCode : Int

/-- What was written of a text, and the error that ended it. -/
structure Written where
  text : String
  error : Option String := none

structure Packages where
  readArguments : List String → Except Refusal Arguments
  /-- Loads settings, with arguments of its own above the environment and the files. -/
  loadSettings : FileSystem → Environment → List String → Except String Settings
  /-- Takes the text for a log filter, or says why it is none. -/
  checkLogFilter : String → Except String Unit
  /-- Makes the log the one of the process. -/
  startLog : String → LogFormat → Except String Unit
  writeRecord : MatchRecord → Written

/-- A command that works on files names some. -/
def Command.NamesPaths : Command → Prop
  | .grep source _ => source.paths ≠ []
  | .replace source _ _ => source.paths ≠ []
  | .explain _ _ => True

namespace Packages

/-- Arguments for a command that works on files are refused unless they name some. -/
def RequiresPaths (p : Packages) : Prop :=
  ∀ arguments given, p.readArguments arguments = .ok given → given.command.NamesPaths

/-- Records are written without error on one line, from which they are read back. -/
structure WritesRecords (p : Packages) (read : String → Option MatchRecord) : Prop where
  error : ∀ r : MatchRecord, r.WellFormed → (p.writeRecord r).error = none
  oneLine : ∀ r : MatchRecord, r.WellFormed → '\n' ∉ (p.writeRecord r).text.toList
  readBack : ∀ r : MatchRecord, r.WellFormed → read (p.writeRecord r).text = some r

end Packages
end StructuralSearch.CommandLine
