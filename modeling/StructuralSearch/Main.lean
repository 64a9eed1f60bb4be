import StructuralSearch.CommandLine.Run

/-!
# The program

Gathers what a run depends on, runs it, and puts its report into effect.
-/
namespace StructuralSearch.CommandLine

/-- What is at a path, if anything. -/
def entryOnDisk (path : String) : IO (Option FileEntry) := do
  try
    return some (.file (← IO.FS.readBinFile path))
  catch
    | .noFileOrDirectory .. => return none
    | _ => return some .directory

/-- The files with what lies on the way that a path takes from a location. -/
def addPath (files : FileSystem) (here : Location) (path : String) : IO FileSystem := do
  let parts := Location.parts path
  let mut entries := files.entries
  for n in List.range parts.length do
    let location := (parts.take (n + 1)).foldl Location.enter (Location.origin here path)
    if let some entry ← entryOnDisk location.toPath then
      entries := (location, entry) :: entries
  return { files with entries }

/-- The files with the one that a path leads to and those that it builds on. -/
partial def addSettings (files : FileSystem) (here : Location) (path : String) :
    IO FileSystem := do
  let more ← addPath files here path
  match more.locateFrom here path with
  | .error _ => return more
  | .ok location =>
    if (files.entries.lookup location).isSome then return more
    match StandIn.SettingsFile.read more location with
    | .ok { base := some base, .. } => addSettings more location.dropLast base
    | _ => return more

/-- The files that a run may read. -/
def filesOnDisk (environment : Environment) (arguments : List String) : IO FileSystem := do
  let (settings, others) := pathsFollowed environment arguments
  let files ← settings.foldlM (addSettings · [] ·) { entries := [] }
  others.foldlM (addPath · [] ·) files

/-- The variables that concern the program. -/
def variablesInForce : IO Environment := do
  let mut set := []
  for name in StandIn.Settings.pathVariable :: StandIn.Settings.keys.map StandIn.Variable.usualName do
    if let some value ← IO.getEnv name then
      set := (name, value) :: set
  return set

/-- Runs the program with a parser for the languages. -/
def runWith (parser : Parser) (arguments : List String) : IO UInt32 := do
  let environment ← variablesInForce
  let files ← filesOnDisk environment arguments
  let report := run { parser, environment, files } arguments
  IO.print report.stdout
  IO.eprint report.stderr
  for (location, content) in files.changes report.files do
    IO.FS.writeBinFile location.toPath content
  return report.code.toUInt32

end StructuralSearch.CommandLine

/-- The program as it stands has no grammar for any language, so no text has a parse. -/
def main (arguments : List String) : IO UInt32 :=
  StructuralSearch.CommandLine.runWith (fun _ _ => none) arguments
