import StructuralSearch.Proofs.Tree.OfTree

/-!
# Shapes

The shape of a tree is what a comparison of trees can see: at each node the kind and the text, and
below it the shapes of the children with the names of their roles. Two nodes are the same tree when
their shapes are equal, wherever they are.
-/
namespace StructuralSearch

inductive Shape where
  | node (kind : String) (text : Option String) (children : List (String × Shape))

namespace TreeView

variable {ν : Type}

def shape (v : TreeView ν) (n : ν) : Shape :=
  .node (v.kind n) (v.text n) ((v.children n).attach.map fun c => (c.1.role.name, shape v c.1.node))
termination_by v.rank n
decreasing_by exact v.rank_lt n c.1 c.2

theorem shape_eq (v : TreeView ν) (n : ν) :
    v.shape n =
      .node (v.kind n) (v.text n) ((v.children n).map fun c => (c.role.name, v.shape c.node)) := by
  rw [shape]
  exact congrArg _ (List.attach_map_val (f := fun c : Child ν => (c.role.name, v.shape c.node)))

theorem sameTree_iff_shape_eq {v : TreeView ν} {a b : ν} :
    v.sameTree a b ↔ v.shape a = v.shape b := by
  induction a using v.induct generalizing b with
  | node a ih =>
    rw [sameTree_iff, shape_eq, shape_eq, Shape.node.injEq]
    refine and_congr_right fun _ => and_congr_right fun _ => ?_
    rw [← List.forall₂_eq_eq_eq, List.forall₂_map_left_iff, List.forall₂_map_right_iff,
      List.forall₂_iff_zip, List.forall₂_iff_zip]
    refine and_congr_right fun _ => forall_congr' fun c => forall_congr' fun d =>
      forall_congr' fun hcd => ?_
    rw [sameChild, Bool.and_eq_true, Role.beq_iff, ih c (List.of_mem_zip hcd).1, Prod.mk.injEq]

theorem sameTree_symm {v : TreeView ν} {a b : ν} (h : v.sameTree a b) : v.sameTree b a :=
  sameTree_iff_shape_eq.2 (sameTree_iff_shape_eq.1 h).symm

/-- What is compared can be replaced by the same trees. -/
theorem sameTree_congr {v : TreeView ν} {a a' b b' : ν} (ha : v.sameTree a a')
    (hb : v.sameTree b b') (h : v.sameTree a b) : v.sameTree a' b' := by
  rw [sameTree_iff_shape_eq] at ha hb h ⊢
  rw [← ha, ← hb, h]

end TreeView
end StructuralSearch
