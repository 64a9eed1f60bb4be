/-!
# Setting values

What stands for a setting in a file or in the environment, before it is known what the setting
needs.
-/
namespace StructuralSearch.StandIn

inductive SettingValue where
  | count (n : Nat)
  | text (s : String)
  /-- A value that no setting takes, such as a negative number or a list. -/
  | other
  deriving DecidableEq, Repr

namespace SettingValue

def count? : SettingValue → Option Nat
  | count n => some n
  | _ => none

def text? : SettingValue → Option String
  | text s => some s
  | _ => none

end SettingValue

/-- Settings by key. Of two values for a key the first counts. -/
abbrev SettingsLayer := List (String × SettingValue)

end StructuralSearch.StandIn
