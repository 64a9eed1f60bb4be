import StructuralSearch.Language
import StructuralSearch.Text.Bytes

/-!
# Parse trees

What a parser makes of a source text: a tree of nodes, each covering a range of bytes. Tokens
without a name of their own and comments are nodes too.
-/
namespace StructuralSearch

/-- What a parser says about a node apart from its children. -/
structure NodeLabel where
  kind : String
  /-- The node has a rule of the grammar to its name, other than a plain token. -/
  named : Bool
  /-- The node can stand anywhere, as comments can. -/
  extra : Bool
  /-- The parser put the node in for one that the text lacks. -/
  missing : Bool
  /-- The node covers text that the grammar does not derive. -/
  isError : Bool
  range : Text.ByteRange
  /-- The name of the node's place in its parent, if the grammar gives it one. -/
  field : Option String
  deriving Inhabited

inductive ParseTree where
  | node (label : NodeLabel) (children : List ParseTree)
  deriving Inhabited

namespace ParseTree

def label : ParseTree → NodeLabel
  | node label _ => label

def children : ParseTree → List ParseTree
  | node _ children => children

def kind (t : ParseTree) : String :=
  t.label.kind

mutual

/-- The number of nodes. -/
def size : ParseTree → Nat
  | node _ children => 1 + sizeAll children
termination_by structural t => t

def sizeAll : List ParseTree → Nat
  | [] => 0
  | t :: ts => size t + sizeAll ts
termination_by structural ts => ts

end

theorem size_pos (t : ParseTree) : 0 < t.size := by
  cases t
  simp only [size]
  omega

theorem size_le_sizeAll {t : ParseTree} {ts : List ParseTree} (h : t ∈ ts) :
    t.size ≤ sizeAll ts := by
  induction ts with
  | nil => cases h
  | cons u us ih =>
    rw [sizeAll]
    rcases List.mem_cons.1 h with rfl | h
    · omega
    · have := ih h; omega

theorem size_lt_of_mem_children {t u : ParseTree} (h : u ∈ t.children) : u.size < t.size := by
  cases t with
  | node label children =>
    have : u.size ≤ sizeAll children := size_le_sizeAll h
    rw [size]
    omega

end ParseTree

/-- A parser's answer: the tree, and whether anything in it is in error. -/
structure Parse where
  tree : ParseTree
  hasError : Bool

/-- A parser for every language; it may give no tree. -/
abbrev Parser := Language → String → Option Parse

end StructuralSearch
