import StructuralSearch.Proofs.Tree.OfTree
import StructuralSearch.Proofs.Tree.Ways

/-!
# Document order

Pre-order lists a node and all that is below it: first the node, then what is below its first child,
and so on. In a built tree this holds the nodes from which the parents lead up to the first one, and
each of them once.
-/
namespace StructuralSearch

variable {ν : Type}

namespace TreeView

/-- The node and all below it, in the order in which they begin in a document. -/
def preOrder (v : TreeView ν) (n : ν) : List ν :=
  n :: (v.children n).attach.flatMap fun c => v.preOrder c.1.node
termination_by v.rank n
decreasing_by exact v.rank_lt n c.1 c.2

theorem preOrder_eq (v : TreeView ν) (n : ν) :
    v.preOrder n = n :: (v.children n).flatMap fun c => v.preOrder c.node := by
  have hchildren : ((v.children n).attach.flatMap fun c => v.preOrder c.1.node) =
      (v.children n).attach.unattach.flatMap fun c => v.preOrder c.node :=
    List.flatMap_subtype fun _ _ => rfl
  rw [preOrder, hchildren, List.unattach_attach]

theorem mem_preOrder_self (v : TreeView ν) (n : ν) : n ∈ v.preOrder n := by
  rw [preOrder_eq]
  exact List.mem_cons_self

theorem mem_preOrder_of_mem_children {v : TreeView ν} {n m : ν} (h : m ∈ v.preOrder n) {c : Child ν}
    (hc : c ∈ v.children m) : c.node ∈ v.preOrder n := by
  induction n using v.induct with
  | node n ih =>
    rw [preOrder_eq] at h ⊢
    rcases List.mem_cons.1 h with rfl | h
    · exact List.mem_cons_of_mem _ (List.mem_flatMap.2 ⟨c, hc, v.mem_preOrder_self c.node⟩)
    · obtain ⟨d, hd, hm⟩ := List.mem_flatMap.1 h
      exact List.mem_cons_of_mem _ (List.mem_flatMap.2 ⟨d, hd, ih d hd hm⟩)

/-- Nodes come in the order in which they begin. -/
theorem sublist_flatMap_preOrder (v : TreeView ν) (nodes : List ν) :
    nodes.Sublist (nodes.flatMap v.preOrder) := by
  induction nodes with
  | nil => exact .slnil
  | cons n rest ih =>
    rw [List.flatMap_cons, preOrder_eq, List.cons_append]
    exact (ih.trans (List.sublist_append_right _ _)).cons_cons n

end TreeView

namespace Tree

theorem Builder.Filled.exists_stores {b : Builder} (h : b.Filled) :
    ∃ made, Stores b.entries made := by
  induction h with
  | empty => exact ⟨[], Stores.empty⟩
  | leaf kind text _ ih =>
    obtain ⟨made, hstores⟩ := ih
    exact ⟨_, hstores.answer (.leaf kind text)⟩
  | @node b after kind slots n _ hadd ih =>
    obtain ⟨made, hstores⟩ := ih
    have hanswer : (b.answer (.node kind slots)).2 = after := by
      rw [answer, hadd]
    exact ⟨_, hanswer ▸ hstores.answer (.node kind slots)⟩

theorem Built.exists_stores {t : Tree} (h : t.Built) : ∃ made, Stores t.entries made := by
  obtain ⟨b, root, hfilled, hfinish⟩ := h
  rw [Builder.entries_of_finish hfinish]
  exact hfilled.exists_stores

namespace Node

theorem above?_add (n : Node) (j k : Nat) :
    n.above? (j + k) = (n.above? j).bind fun m => m.above? k := by
  induction j generalizing n with
  | zero => rw [Nat.zero_add]; rfl
  | succ j ih =>
    rw [Nat.add_right_comm, above?, above?, Option.bind_assoc]
    congr 1
    funext m
    exact ih m

section

variable {made : List Adoption}

theorem tree_of_mem_children {n : Node} {c : Child Node} (hc : c ∈ n.children) :
    c.node.tree = n.tree :=
  (mem_children_iff.1 hc).2.1

theorem tree_of_parent {n m : Node} (h : n.parent = some m) : m.tree = n.tree := by
  obtain ⟨i, -, hm⟩ := Option.bind_eq_some_iff.1 h
  exact (get?_eq_some_iff.1 hm).1

theorem tree_of_above? {n m : Node} {k : Nat} (h : n.above? k = some m) : m.tree = n.tree := by
  induction k generalizing n with
  | zero => rw [Option.some.inj h]
  | succ k ih =>
    obtain ⟨above, habove, h⟩ := Option.bind_eq_some_iff.1 h
    rw [ih h, tree_of_parent habove]

/-- Nodes further up are made later. -/
theorem index_le_of_above? {n m : Node} (h : Stores n.tree.entries made) {k : Nat}
    (hm : n.above? k = some m) : n.number.index ≤ m.number.index := by
  induction k generalizing n with
  | zero =>
    obtain rfl := Option.some.inj hm
    exact Nat.le_refl _
  | succ k ih =>
    obtain ⟨above, habove, hm⟩ := Option.bind_eq_some_iff.1 hm
    have hlt := index_lt_of_mem_children (mem_children_of_parent h habove)
    have hle := ih (tree_of_parent habove ▸ h) hm
    exact Nat.le_trans (Nat.le_of_lt hlt) hle

/-- Below a node are the nodes from which the parents lead up to it. -/
theorem mem_preOrder_iff {n m : Node} (h : Stores n.tree.entries made) :
    m ∈ view.preOrder n ↔ ∃ k, m.above? k = some n := by
  constructor
  · intro hm
    induction n using view.induct with
    | node n ih =>
      rw [TreeView.preOrder_eq] at hm
      rcases List.mem_cons.1 hm with rfl | hm
      · exact ⟨0, rfl⟩
      · obtain ⟨c, hc, hm⟩ := List.mem_flatMap.1 hm
        obtain ⟨k, hk⟩ := ih c hc (tree_of_mem_children hc ▸ h) hm
        refine ⟨k + 1, ?_⟩
        rw [above?_add, hk, Option.bind_some, above?, parent_of_mem_children h hc]
        rfl
  · rintro ⟨k, hk⟩
    rw [tree_of_above? hk] at h
    induction k generalizing m with
    | zero =>
      obtain rfl := Option.some.inj hk
      exact view.mem_preOrder_self m
    | succ k ih =>
      obtain ⟨above, habove, hk⟩ := Option.bind_eq_some_iff.1 hk
      exact TreeView.mem_preOrder_of_mem_children (ih (tree_of_parent habove ▸ h) hk)
        (mem_children_of_parent h habove)

theorem tree_of_mem_preOrder {n m : Node} (h : Stores n.tree.entries made)
    (hm : m ∈ view.preOrder n) : m.tree = n.tree := by
  obtain ⟨k, hk⟩ := (mem_preOrder_iff h).1 hm
  exact (tree_of_above? hk).symm

/-- A node is not above another one when nothing is below both. -/
theorem above?_ne_of_disjoint {n m : Node} (h : Stores m.tree.entries made)
    (hdisjoint : (view.preOrder n).Disjoint (view.preOrder m)) (k : Nat) : n.above? k ≠ some m :=
  fun hk => hdisjoint (view.mem_preOrder_self n) ((mem_preOrder_iff h).2 ⟨k, hk⟩)

/-- The parents lead up to only one of the children of a node: from there they go on to the node and
never come back down. -/
theorem le_of_above? {n m a b : Node} (h : Stores m.tree.entries made) {j k : Nat}
    (ha : m.above? j = some a) (hb : m.above? k = some b) (hparent : a.parent = some n)
    (hparent' : b.parent = some n) : k ≤ j := by
  by_contra hlt
  obtain ⟨d, rfl⟩ := Nat.exists_eq_add_of_lt (Nat.not_le.1 hlt)
  rw [Nat.add_assoc, above?_add, ha, Option.bind_some, above?, hparent, Option.bind_some] at hb
  have hsame := tree_of_above? ha
  have hle := index_le_of_above? (tree_of_parent hparent ▸ hsame ▸ h) hb
  have hbelow := index_lt_of_mem_children
    (mem_children_of_parent (tree_of_above? hb ▸ tree_of_parent hparent ▸ hsame ▸ h) hparent')
  exact absurd hle (Nat.not_le.2 hbelow)

theorem eq_of_above? {n m a b : Node} (h : Stores m.tree.entries made) {j k : Nat}
    (ha : m.above? j = some a) (hb : m.above? k = some b) (hparent : a.parent = some n)
    (hparent' : b.parent = some n) : a = b := by
  have hjk := Nat.le_antisymm (le_of_above? h hb ha hparent' hparent)
    (le_of_above? h ha hb hparent hparent')
  rw [hjk] at ha
  exact Option.some.inj (ha.symm.trans hb)

/-- No node comes twice: what is below one child is not below another. -/
theorem nodup_preOrder {n : Node} (h : Stores n.tree.entries made) : (view.preOrder n).Nodup := by
  induction n using view.induct with
  | node n ih =>
    rw [TreeView.preOrder_eq, List.nodup_cons, List.nodup_flatMap]
    refine ⟨?_, ?_, ?_⟩
    · intro hn
      obtain ⟨c, hc, hn⟩ := List.mem_flatMap.1 hn
      obtain ⟨k, hk⟩ := (mem_preOrder_iff (tree_of_mem_children hc ▸ h)).1 hn
      exact absurd (index_le_of_above? h hk) (Nat.not_le.2 (index_lt_of_mem_children hc))
    · intro c hc
      exact ih c hc (tree_of_mem_children hc ▸ h)
    · refine (List.pairwise_map.1 (nodup_children h)).imp_of_mem ?_
      intro c d hc hd hne m hm hm'
      obtain ⟨j, hj⟩ := (mem_preOrder_iff (tree_of_mem_children hc ▸ h)).1 hm
      obtain ⟨k, hk⟩ := (mem_preOrder_iff (tree_of_mem_children hd ▸ h)).1 hm'
      have hstores : Stores m.tree.entries made := by
        rw [← tree_of_above? hj, tree_of_mem_children hc]
        exact h
      exact hne (eq_of_above? hstores hj hk (parent_of_mem_children h hc)
        (parent_of_mem_children h hd))

end

end Node
end Tree
end StructuralSearch
