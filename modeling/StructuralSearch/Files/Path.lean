/-!
# Paths

A path is a text whose components stand between slashes. Empty components and single dots do not
count.
-/
namespace StructuralSearch.Path

/-- The components that count, in order. -/
def components (path : String) : List String :=
  (path.toList.splitOn '/').map String.ofList |>.filter fun part => part ≠ "" && part ≠ "."

/-- The last component, unless it steps up to a parent. -/
def fileName? (path : String) : Option String :=
  (components path).getLast?.filter fun name => name ≠ ".."

/-- What follows the last dot of the file name. A dot that begins the name only hides the file. -/
def extension? (path : String) : Option String :=
  (fileName? path).bind fun name =>
    let reversed := name.toList.reverse
    let afterDot := reversed.takeWhile (· ≠ '.')
    match reversed.dropWhile (· ≠ '.') with
    | [] | [_] => none
    | _ => some (String.ofList afterDot.reverse)

end StructuralSearch.Path
