import StructuralSearch.Tree.View

/-!
# Targets

What patterns are matched against: a view of trees together with the two comparisons that matching
makes, of a node with a text and of a node with another node. The comparisons may be coarser than
equality, as those that ignore the case of letters are.
-/
namespace StructuralSearch

structure Target (ν : Type) extends TreeView ν where
  /-- The node has this text. -/
  hasText : ν → String → Bool
  /-- The node has the same content as the second one. -/
  sameContent : ν → ν → Bool

namespace TreeView

variable {ν : Type}

def textIs (v : TreeView ν) (n : ν) (text : String) : Bool :=
  v.text n == some text

/-- The comparisons that tell any two trees apart. -/
def exactly (v : TreeView ν) : Target ν where
  toTreeView := v
  hasText := v.textIs
  sameContent := v.sameTree

/-- The comparisons that ignore the case of letters: in a text, and between two nodes that both have
one. -/
def ignoringCase (v : TreeView ν) : Target ν where
  toTreeView := v
  hasText n text := (v.text n).any fun own => Text.sameLetters own text
  sameContent a b :=
    v.kind a == v.kind b &&
      match v.text a, v.text b with
      | some s, some t => Text.sameLetters s t
      | _, _ => v.sameTree a b

end TreeView
end StructuralSearch
