import StructuralSearch.StandIn.Arguments
import StructuralSearch.StandIn.SettingsFile
import StructuralSearch.StandIn.Variable

/-!
# A loader of settings

Settings come in layers: a settings file, the environment above it, and options above both. Only the
value that remains for a setting has to be one that it takes.
-/
namespace StructuralSearch.StandIn

namespace Settings

/-- The settings file that is looked for when none is named. -/
def usualFile : String := ".heddle.toml"

/-- The keys of the settings. -/
def keys : List String :=
  ["log_filter", "log_format", "max_matches", "max_file_bytes"]

/-- The variable that names a settings file. -/
def pathVariable : String := Variable.usualName "config_path"

/-- What the variables set. Of two that set the same key the later one counts. -/
def ofEnvironment (environment : Environment) : SettingsLayer :=
  (environment.filterMap fun v => Variable.setting? v.1 v.2).reverse

/-- The options of settings, read from the arguments passed on for them. -/
structure Options where
  configPath : Option String := none
  layer : SettingsLayer := []

def Options.set (options : Options) (key : String) (value : SettingValue) : Options :=
  { options with layer := (key, value) :: options.layer }

/-- Adds options one after the other. A value that looks like an option is refused. -/
def Options.add (options : Options) : List String → Except SettingsFault Options
  | option :: value :: rest =>
    if looksLikeOption value then .error (.ambiguous value)
    else
      match option with
      | "--config-path" => { options with configPath := some value }.add rest
      | "--log-filter" => (options.set "log_filter" (.text value)).add rest
      | "--log-format" => (options.set "log_format" (.text value)).add rest
      | "--max-matches" => (options.set "max_matches" (.ofWord value)).add rest
      | _ => .error (.invalidValue option)
  | _ => .ok options

/-- The settings files that are looked for when none is named in the arguments. -/
def filesLookedFor (environment : Environment) : List String :=
  (environment.lookup pathVariable).toList ++ [usualFile]

/-- The settings of the file asked for, which must be there, or else of one that is looked for. -/
def ofFiles (fs : FileSystem) (environment : Environment) (named : Option String) :
    Except SettingsFault SettingsLayer :=
  match named with
  | some path => SettingsFile.ofPath fs path
  | none => SettingsFile.ofCandidates fs none (filesLookedFor environment)

/-- Reads a setting, which has its usual value when no layer sets it. -/
def get {α : Type} (layer : SettingsLayer) (key : String) (usual : α)
    (read : SettingValue → Option α) : Except SettingsFault α :=
  match layer.lookup key with
  | none => .ok usual
  | some value =>
    match read value with
    | some a => .ok a
    | none => .error (.invalidValue key)

def ofLayer (layer : SettingsLayer) : Except SettingsFault Settings := do
  let usual : Settings := {}
  let logFilter ← get layer "log_filter" usual.logFilter SettingValue.text?
  let logFormat ←
    get layer "log_format" usual.logFormat fun v => v.text?.bind formatOfExactName?
  let maxMatches ← get layer "max_matches" usual.limits.maxMatches SettingValue.count?
  let maxFileBytes ← get layer "max_file_bytes" usual.limits.maxFileBytes SettingValue.count?
  return { logFilter, logFormat, limits := { maxMatches, maxFileBytes } }

/-- The settings that the arguments, the environment and the files come to. -/
def ofArguments (fs : FileSystem) (environment : Environment) (arguments : List String) :
    Except SettingsFault Settings := do
  let options ← Options.add {} arguments.tail
  let file ← ofFiles fs environment options.configPath
  ofLayer (options.layer ++ ofEnvironment environment ++ file)

end Settings

/-- Loads settings, with the message of a fault. -/
def loadSettings (fs : FileSystem) (environment : Environment) (arguments : List String) :
    Except String Settings :=
  (Settings.ofArguments fs environment arguments).mapError SettingsFault.message

end StructuralSearch.StandIn
