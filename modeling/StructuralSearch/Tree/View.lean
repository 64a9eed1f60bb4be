import StructuralSearch.Role

/-!
# Views of trees

A view says how the nodes of one type form trees: the kind, the text and the children of each node.
Whatever is said about trees in general is said about views, so it holds of trees built by hand and
of parsed source alike.
-/
namespace StructuralSearch

/-- A node below another one, with its role there. -/
structure Child (ν : Type) where
  role : Role
  node : ν

/-- Trees over the nodes `ν`. Children have a lower rank than their parent, so every tree is
finite. -/
structure TreeView (ν : Type) where
  kind : ν → String
  text : ν → Option String
  children : ν → List (Child ν)
  rank : ν → Nat
  rank_lt : ∀ (n : ν) (c : Child ν), c ∈ children n → rank c.node < rank n

namespace TreeView

variable {ν : Type}

/-- The same kind, the same text, and the same children in the same roles. -/
def sameTree (v : TreeView ν) (a b : ν) : Bool :=
  v.kind a == v.kind b && v.text a == v.text b &&
    (v.children a).length == (v.children b).length &&
    ((v.children a).attach.zip (v.children b)).all fun p =>
      p.1.1.role == p.2.role && v.sameTree p.1.1.node p.2.node
termination_by v.rank a
decreasing_by exact v.rank_lt a p.1.1 p.1.2

end TreeView
end StructuralSearch
