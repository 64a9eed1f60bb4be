import StructuralSearch.Files.Path
import StructuralSearch.StandIn.SettingsFault
import StructuralSearch.StandIn.Toml.Document
import StructuralSearch.Text.Letters

/-!
# Settings files

A settings file is a TOML document. It can name another one to build on; what it sets itself counts
before what that one sets.
-/
namespace StructuralSearch.StandIn

/-- What a settings file sets, and the path of the file that it builds on. -/
structure SettingsFile where
  layer : SettingsLayer
  base : Option String

namespace SettingsFile

/-- The key that names the file to build on. -/
def baseKey : String := "extends"

/-- The extensions of files that are not taken for TOML. -/
def otherExtensions : List String :=
  ["json", "json5", "yaml", "yml"]

def isToml (path : String) : Bool :=
  match Path.extension? path with
  | some extension => !otherExtensions.contains (Text.lowercase extension)
  | none => true

/-- The path of the file that a layer builds on. -/
def baseOf (layer : SettingsLayer) : Except SettingsFault (Option String) :=
  match layer.lookup baseKey with
  | none => .ok none
  | some (.text "") => .error (.invalidValue baseKey)
  | some (.text path) => .ok (some path)
  | some _ => .error (.invalidValue baseKey)

/-- Reads the settings file at a location by itself. -/
def read (fs : FileSystem) (location : Location) : Except SettingsFault SettingsFile :=
  let path := location.toPath
  match fs.textAt location with
  | .error fault => .error (.unreadable path fault)
  | .ok text =>
    match if isToml path then Toml.read? text else none with
    | none => .error (.malformed path)
    | some layer => (baseOf layer).map fun base => { layer, base }

/-- The location of a file that the one at a location builds on. -/
def locateBase (fs : FileSystem) (location : Location) (path : String) :
    Except SettingsFault Location :=
  (fs.locateFrom location.dropLast path).mapError (.unreadable path)

/-- A file that was read is an entry of the file system. -/
theorem exists_entry_of_read {fs : FileSystem} {location : Location} {file : SettingsFile}
    (h : read fs location = .ok file) : ∃ e ∈ fs.entries, e.1 = location := by
  unfold read at h
  cases ht : fs.textAt location with
  | error fault =>
    rw [ht] at h
    cases h
  | ok text => exact FileSystem.exists_entry_of_textAt ht

/-- How many entries lie elsewhere than at the locations visited. -/
def unvisited (fs : FileSystem) (visited : List Location) : Nat :=
  fs.entries.countP fun e => e.1 ∉ visited

theorem unvisited_cons_lt {fs : FileSystem} {location : Location} {visited : List Location}
    (hm : ∃ e ∈ fs.entries, e.1 = location) (hv : location ∉ visited) :
    unvisited fs (location :: visited) < unvisited fs visited := by
  obtain ⟨e, he, rfl⟩ := hm
  have fewer (entries : List (Location × FileEntry)) :
      (entries.countP fun other => other.1 ∉ e.1 :: visited) ≤
        entries.countP fun other => other.1 ∉ visited :=
    List.countP_mono_left fun other _ h => by simp_all
  obtain ⟨before, after, hs⟩ := List.append_of_mem he
  have hbefore := fewer before
  have hafter := fewer after
  simp only [unvisited, hs, List.countP_append, List.countP_cons, List.mem_cons, true_or,
    not_true_eq_false, decide_false, hv, not_false_eq_true, decide_true] at *
  simp only [Bool.false_eq_true, if_true, if_false]
  omega

/-- The settings of the file at a location, and of those that it builds on, none of which was
visited before. -/
def load (fs : FileSystem) (visited : List Location) (location : Location) :
    Except SettingsFault SettingsLayer :=
  if hv : location ∈ visited then .error (.circular location.toPath)
  else
    match hr : read fs location with
    | .error fault => .error fault
    | .ok { layer, base := none } => .ok layer
    | .ok { layer, base := some path } => do
      have := unvisited_cons_lt (exists_entry_of_read hr) hv
      let below ← load fs (location :: visited) (← locateBase fs location path)
      return layer ++ below
termination_by unvisited fs visited

/-- The settings of the file that a path leads to. -/
def ofPath (fs : FileSystem) (path : String) : Except SettingsFault SettingsLayer :=
  match fs.locate path with
  | .error fault => .error (.unreadable path fault)
  | .ok location => load fs [] location

/-- The settings of the first path that leads to a file without faults. A path that leads nowhere
does no harm; a faulty file does, unless a later one is good. -/
def ofCandidates (fs : FileSystem) (earlier : Option SettingsFault) :
    List String → Except SettingsFault SettingsLayer
  | [] =>
    match earlier with
    | some fault => .error fault
    | none => .ok []
  | path :: rest =>
    match fs.locate path, ofPath fs path with
    | .error .notFound, _ => ofCandidates fs earlier rest
    | _, .error fault => ofCandidates fs (earlier <|> some fault) rest
    | _, .ok layer => .ok layer

end SettingsFile
end StructuralSearch.StandIn
