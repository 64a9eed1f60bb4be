import StructuralSearch.Files.Path
import StructuralSearch.Text.Letters

/-!
# Languages

The languages whose sources can be searched, by name and by file extension.
-/
namespace StructuralSearch

inductive Language where
  | rust
  | python
  | typescript
  deriving DecidableEq, Repr, Inhabited

namespace Language

def all : List Language :=
  [rust, python, typescript]

def name : Language → String
  | rust => "rust"
  | python => "python"
  | typescript => "typescript"

/-- The names by which a language can be chosen. -/
def names : Language → List String
  | rust => ["rust", "rs"]
  | python => ["python", "py"]
  | typescript => ["typescript", "ts"]

def extensions : Language → List String
  | rust => ["rs"]
  | python => ["py", "pyi"]
  | typescript => ["ts", "tsx", "mts", "cts"]

/-- The kind of the node that spans a whole file. -/
def fileKind : Language → String
  | rust => "source_file"
  | python => "module"
  | typescript => "program"

/-- The language when none is chosen. -/
def standard : Language := rust

/-- The language of a name, in whatever case its letters are. -/
def ofName? (name : String) : Option Language :=
  all.find? fun l => l.names.contains (Text.lowercase name)

/-- The language of a file extension, in whatever case its letters are. -/
def ofExtension? (extension : String) : Option Language :=
  all.find? fun l => l.extensions.contains (Text.lowercase extension)

def ofPath? (path : String) : Option Language :=
  (Path.extension? path).bind ofExtension?

theorem mem_all (l : Language) : l ∈ all := by
  cases l <;> simp [all]

end Language
end StructuralSearch
