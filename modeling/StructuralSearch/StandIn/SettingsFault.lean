import StructuralSearch.Files.FileSystem

/-!
# Faults of settings
-/
namespace StructuralSearch.StandIn

inductive SettingsFault where
  /-- A settings file cannot be read. -/
  | unreadable (path : String) (fault : FileFault)
  /-- A settings file is not well formed. -/
  | malformed (path : String)
  /-- A settings file builds on itself, if only through others. -/
  | circular (path : String)
  /-- A setting has a value that it does not take. -/
  | invalidValue (key : String)
  /-- The value of an option could be taken for an option itself. -/
  | ambiguous (value : String)
  deriving DecidableEq, Repr

def SettingsFault.message : SettingsFault → String
  | unreadable path fault => "cannot read " ++ path ++ ": " ++ fault.message
  | malformed path => "malformed settings in " ++ path
  | circular path => "settings in " ++ path ++ " build on themselves"
  | invalidValue key => "invalid value for " ++ key
  | ambiguous value => "ambiguous value " ++ value

end StructuralSearch.StandIn
