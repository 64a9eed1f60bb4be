import Mathlib.Data.List.Induction
import StructuralSearch.Proofs.Tree.Links

/-!
# Ways in a tree

Whatever a builder is asked to make, and in whatever order, its nodes hang together as a forest. In
a tree that it finishes, a way down from the root chooses a child at each step. No two ways lead to
the same node, and from there the parents lead up the same way again.
-/
namespace StructuralSearch

namespace Tree

theorem get?_eq_some_iff {t : Tree} {n : NodeNumber} {m : Node} :
    t.get? n = some m ↔ m.tree = t ∧ m.number = n := by
  constructor
  · intro h
    obtain ⟨hnumber, htree⟩ := eq_of_get? h
    exact ⟨htree, hnumber⟩
  · rintro ⟨rfl, rfl⟩
    unfold get?
    split
    · rename_i e he
      obtain ⟨t, n, entry, hentry⟩ := m
      cases he.symm.trans hentry
      rfl
    · rename_i hnone
      cases hnone.symm.trans m.entry_eq

namespace Node

theorem mem_children_iff {n : Node} {c : Child Node} :
    c ∈ n.children ↔
      c.node.number ∈ n.entry.children ∧ c.node.tree = n.tree ∧ c.role = c.node.role := by
  obtain ⟨role, m⟩ := c
  rw [children, List.mem_filterMap]
  constructor
  · rintro ⟨i, hi, hc⟩
    obtain ⟨m', hm, he⟩ := Option.map_eq_some_iff.1 hc
    cases he
    obtain ⟨htree, rfl⟩ := get?_eq_some_iff.1 hm
    exact ⟨hi, htree, rfl⟩
  · rintro ⟨hi, htree, hrole⟩
    obtain rfl : role = m.role := hrole
    refine ⟨m.number, hi, ?_⟩
    rw [get?_eq_some_iff.2 ⟨htree, rfl⟩]
    rfl

/-- The children are the nodes of all numbers that are stored. -/
theorem map_number_children (n : Node) :
    n.children.map (·.node.number) = n.entry.children := by
  rw [children, List.map_filterMap]
  have hknown : ∀ i ∈ n.entry.children,
      ((n.tree.get? i).map fun m => (⟨m.role, m⟩ : Child Node)).map (·.node.number) = some i := by
    intro i hi
    have hlt : i.index < n.tree.entries.size :=
      Nat.lt_trans (n.tree.childrenFirst _ _ n.entry_eq i hi)
        (Array.getElem?_eq_some_iff.1 n.entry_eq).1
    have hget : n.tree.get? i = some ⟨n.tree, i, _, Array.getElem?_eq_getElem hlt⟩ :=
      get?_eq_some_iff.2 ⟨rfl, rfl⟩
    rw [hget]
    rfl
  rw [List.filterMap_congr hknown, List.filterMap_some]

/-- The node that a way leads to: at each step to the child of the given index. -/
def follow? (n : Node) : List Nat → Option Node
  | [] => some n
  | i :: way => n.children[i]?.bind fun c => c.node.follow? way

/-- The node that is reached after some steps to the parent. -/
def above? (n : Node) : Nat → Option Node
  | 0 => some n
  | k + 1 => n.parent.bind fun m => m.above? k

theorem follow?_append_singleton (n : Node) (way : List Nat) (i : Nat) :
    n.follow? (way ++ [i]) = (n.follow? way).bind fun m => m.children[i]?.map (·.node) := by
  induction way generalizing n with
  | nil =>
    rw [List.nil_append, follow?, follow?, Option.bind_some]
    exact Option.map_eq_bind.symm
  | cons j way ih =>
    rw [List.cons_append, follow?, follow?, Option.bind_assoc]
    congr 1
    funext c
    exact ih c.node

theorem tree_of_follow? {n m : Node} {way : List Nat} (h : n.follow? way = some m) :
    m.tree = n.tree := by
  induction way generalizing n with
  | nil => rw [Option.some.inj h]
  | cons i way ih =>
    obtain ⟨c, hc, h⟩ := Option.bind_eq_some_iff.1 h
    rw [ih h]
    exact (mem_children_iff.1 (List.mem_of_getElem? hc)).2.1

section

variable {made : List Adoption}

/-- The child was adopted by the node, in the role that it has there. -/
theorem adopted_of_mem_children {n : Node} (h : Stores n.tree.entries made) {c : Child Node}
    (hc : c ∈ n.children) : ⟨n.number, c.role, c.node.number⟩ ∈ made := by
  obtain ⟨hnumber, htree, hrole⟩ := mem_children_iff.1 hc
  rw [h.children n.number.index n.entry n.entry_eq, List.mem_map] at hnumber
  obtain ⟨a, ha, hchild⟩ := hnumber
  obtain ⟨ha, hparent⟩ := List.mem_filter.1 ha
  have hentry := h.role c.node.number.index c.node.entry (htree ▸ c.node.entry_eq)
  have hown : adoptionOf? made ⟨c.node.number.index⟩ = some a := by
    rw [← adoptionOf?_child h.once ha, hchild]
  rw [hown] at hentry
  obtain ⟨parent, role, child⟩ := a
  obtain rfl : parent = n.number := of_decide_eq_true hparent
  obtain rfl : child = c.node.number := hchild
  rwa [hrole, Node.role, hentry]

theorem parent_of_mem_children {n : Node} (h : Stores n.tree.entries made) {c : Child Node}
    (hc : c ∈ n.children) : c.node.parent = some n := by
  obtain ⟨-, htree, -⟩ := mem_children_iff.1 hc
  have hown : adoptionOf? made ⟨c.node.number.index⟩ = some ⟨n.number, c.role, c.node.number⟩ :=
    adoptionOf?_child h.once (adopted_of_mem_children h hc)
  have hentry := h.parent c.node.number.index c.node.entry (htree ▸ c.node.entry_eq)
  rw [hown] at hentry
  rw [parent, hentry, htree]
  exact get?_eq_some_iff.2 ⟨rfl, rfl⟩

/-- A node is among the children of its parent. -/
theorem mem_children_of_parent {n m : Node} (h : Stores m.tree.entries made)
    (hparent : m.parent = some n) : (⟨m.role, m⟩ : Child Node) ∈ n.children := by
  obtain ⟨i, hi, hn⟩ := Option.bind_eq_some_iff.1 hparent
  obtain ⟨htree, rfl⟩ := get?_eq_some_iff.1 hn
  refine mem_children_iff.2 ⟨?_, htree.symm, rfl⟩
  rw [h.parent m.number.index m.entry m.entry_eq] at hi
  obtain ⟨a, ha, hnumber⟩ := Option.map_eq_some_iff.1 hi
  obtain ⟨hmade, hchild⟩ := mem_of_adoptionOf?_eq_some ha
  rw [← htree] at h
  rw [h.children n.number.index n.entry n.entry_eq, List.mem_map]
  exact ⟨a, List.mem_filter.2 ⟨hmade, decide_eq_true hnumber⟩, hchild⟩

/-- No node is there twice among the children. -/
theorem nodup_children {n : Node} (h : Stores n.tree.entries made) :
    (n.children.map (·.node)).Nodup := by
  refine List.Nodup.of_map number ?_
  rw [List.map_map]
  show (n.children.map (·.node.number)).Nodup
  rw [map_number_children, h.children n.number.index n.entry n.entry_eq]
  exact h.once.sublist (List.filter_sublist.map _)

theorem index_inj {n m : Node} (h : Stores n.tree.entries made) {i j : Nat}
    (hi : n.children[i]?.map (·.node) = some m) (hj : n.children[j]?.map (·.node) = some m) :
    i = j := by
  rw [← List.getElem?_map] at hi hj
  exact (List.getElem?_inj (List.getElem?_eq_some_iff.1 hi).1 (nodup_children h)).1
    (hi.trans hj.symm)

theorem exists_of_follow?_append_singleton {n m : Node} {way : List Nat} {i : Nat}
    (h : n.follow? (way ++ [i]) = some m) :
    ∃ above, n.follow? way = some above ∧ above.children[i]?.map (·.node) = some m := by
  rw [follow?_append_singleton] at h
  exact Option.bind_eq_some_iff.1 h

/-- The last step of a way goes down from the parent. -/
theorem parent_of_follow?_append_singleton {n m : Node} (h : Stores n.tree.entries made)
    {way : List Nat} {i : Nat} (hm : n.follow? (way ++ [i]) = some m) :
    ∃ above, n.follow? way = some above ∧ above.children[i]?.map (·.node) = some m ∧
      m.parent = some above := by
  obtain ⟨above, habove, hi⟩ := exists_of_follow?_append_singleton hm
  obtain ⟨c, hc, rfl⟩ := Option.map_eq_some_iff.1 hi
  refine ⟨above, habove, hi, ?_⟩
  rw [← tree_of_follow? habove] at h
  exact parent_of_mem_children h (List.mem_of_getElem? hc)

/-- The parents lead up the way again. -/
theorem above?_of_follow? {n m : Node} (h : Stores n.tree.entries made) {way : List Nat}
    (hm : n.follow? way = some m) : m.above? way.length = some n := by
  induction way using List.reverseRecOn generalizing m with
  | nil => exact hm.symm
  | append_singleton way i ih =>
    obtain ⟨above, habove, -, hparent⟩ := parent_of_follow?_append_singleton h hm
    rw [List.length_append, List.length_singleton, above?, hparent]
    exact ih habove

/-- From a node without a parent one way leads to each node at most. -/
theorem follow?_inj {n m : Node} (h : Stores n.tree.entries made) (hroot : n.parent = none)
    {way way' : List Nat} (hm : n.follow? way = some m) (hm' : n.follow? way' = some m) :
    way = way' := by
  induction way using List.reverseRecOn generalizing m way' with
  | nil =>
    obtain rfl := Option.some.inj hm
    cases way' using List.reverseRecOn with
    | nil => rfl
    | append_singleton way' j =>
      obtain ⟨above, -, -, hparent⟩ := parent_of_follow?_append_singleton h hm'
      cases hroot.symm.trans hparent
  | append_singleton way i ih =>
    obtain ⟨above, habove, hi, hparent⟩ := parent_of_follow?_append_singleton h hm
    cases way' using List.reverseRecOn with
    | nil =>
      obtain rfl := Option.some.inj hm'
      cases hroot.symm.trans hparent
    | append_singleton way' j =>
      obtain ⟨above', habove', hj, hparent'⟩ := parent_of_follow?_append_singleton h hm'
      obtain rfl := Option.some.inj (hparent.symm.trans hparent')
      rw [← tree_of_follow? habove] at h
      rw [ih habove habove', index_inj h hi hj]

end

end Node

/-- In the tree every stored child is a child, in the role in which it was adopted. One way at most
leads down from the root to each node, and the parents lead up that way to the root, which has
none. -/
structure Rooted (t : Tree) (made : List Adoption) : Prop where
  parent_root : t.rootNode.parent = none
  children : ∀ n : Node, n.tree = t → n.children.map (·.node.number) = n.entry.children
  roles : ∀ n : Node, n.tree = t → ∀ c ∈ n.children,
    c.role = c.node.role ∧ ⟨n.number, c.role, c.node.number⟩ ∈ made
  only_way : ∀ n way way', t.rootNode.follow? way = some n → t.rootNode.follow? way' = some n →
    way = way'
  above_root : ∀ n way, t.rootNode.follow? way = some n → n.above? way.length = some t.rootNode

namespace Builder

/-- Parents and children agree with each other and with the adoptions. -/
structure Linked (b : Builder) (made : List Adoption) : Prop where
  parent_iff : ∀ c p : NodeNumber, b.parent? c = some p ↔ c ∈ b.childrenOf p
  once : ∀ c p : NodeNumber, b.parent? c = some p →
    (b.childrenOf p).count c = 1 ∧ c.index < p.index
  free : ∀ (c : NodeNumber) (e : Entry), b.entries[c.index]? = some e → e.parent = none →
    e.role = .root
  adopted : ∀ (c p : NodeNumber) (e : Entry), b.entries[c.index]? = some e →
    e.parent = some p → ⟨p, e.role, c⟩ ∈ made
  kept : ∀ a ∈ made, ∃ e, b.entries[a.child.index]? = some e ∧ e.parent = some a.parent ∧
    e.role = a.role

theorem linked_of_stores {b : Builder} {made : List Adoption} (h : Stores b.entries made) :
    b.Linked made where
  parent_iff c p := h.parent?_eq_some_iff.trans h.mem_childrenOf_iff.symm
  once := by
    intro c p hparent
    have hiff := h.parent?_eq_some_iff.1 hparent
    have hcount := List.count_eq_one_of_mem (h.nodup_childrenOf p) (h.mem_childrenOf_iff.2 hiff)
    obtain ⟨a, ha, rfl, rfl⟩ := hiff
    exact ⟨hcount, (h.inOrder a ha).1⟩
  free := by
    intro c e he hparent
    have hnone := Option.map_eq_none_iff.1 ((h.parent c.index e he).symm.trans hparent)
    rw [h.role c.index e he, hnone]
    rfl
  adopted := by
    intro c p e he hparent
    rw [h.parent c.index e he] at hparent
    obtain ⟨a, ha, rfl⟩ := Option.map_eq_some_iff.1 hparent
    obtain ⟨hmem, hchild⟩ := mem_of_adoptionOf?_eq_some ha
    rw [h.role c.index e he, ha]
    obtain rfl : a.child = c := hchild
    exact hmem
  kept := by
    intro a ha
    have he := Array.getElem?_eq_getElem (h.child_lt a ha)
    have hown := adoptionOf?_child h.once ha
    refine ⟨_, he, ?_, ?_⟩
    · exact (h.parent _ _ he).trans (congrArg _ hown)
    · exact (h.role _ _ he).trans (congrArg (fun a? => (Option.map _ a?).getD _) hown)

theorem areFree_singleton_iff {b : Builder} {n : NodeNumber} :
    b.AreFree [n] ↔ ∃ e, b.entries[n.index]? = some e ∧ e.parent = none := by
  constructor
  · intro h
    exact h.free n List.mem_cons_self
  · intro h
    exact ⟨List.forall_mem_singleton.2 h, List.nodup_singleton n⟩

theorem exists_finish_iff {b : Builder} {root : NodeNumber} :
    (∃ t, b.finish root = .ok t) ↔ b.AreFree [root] := by
  rw [areFree_singleton_iff]
  constructor
  · rintro ⟨t, ht⟩
    unfold finish at ht
    split at ht
    · cases ht
    · rename_i e he
      split at ht
      · cases ht
      · rename_i hparent
        rw [Bool.not_eq_true, Option.isSome_eq_false_iff, Option.isNone_iff_eq_none] at hparent
        exact ⟨e, he, hparent⟩
  · rintro ⟨e, he, hparent⟩
    unfold finish
    split
    · rename_i hnone
      cases he.symm.trans hnone
    · rename_i other hother
      cases he.symm.trans hother
      rw [hparent]
      exact ⟨_, rfl⟩

theorem root_of_finish {b : Builder} {root : NodeNumber} {t : Tree} (h : b.finish root = .ok t) :
    t.root = root := by
  unfold finish at h
  split at h
  · cases h
  · split at h
    · cases h
    · cases h
      rfl

theorem parent_rootNode_of_finish {b : Builder} {root : NodeNumber} {t : Tree}
    (h : b.finish root = .ok t) : t.rootNode.parent = none := by
  obtain ⟨e, he, hparent⟩ := areFree_singleton_iff.1 (exists_finish_iff.1 ⟨t, h⟩)
  have hentry : t.rootNode.entry = e := by
    refine Option.some.inj (t.rootNode.entry_eq.symm.trans ?_)
    rw [← he, ← entries_of_finish h, ← root_of_finish h]
    rfl
  rw [Node.parent, hentry, hparent]
  rfl

end Builder

theorem rooted_of_stores {t : Tree} {made : List Adoption} (h : Stores t.entries made)
    (hroot : t.rootNode.parent = none) : t.Rooted made where
  parent_root := hroot
  children n _ := n.map_number_children
  roles := by
    rintro n rfl c hc
    exact ⟨(Node.mem_children_iff.1 hc).2.2, Node.adopted_of_mem_children h hc⟩
  only_way n way way' hn hn' := Node.follow?_inj h hroot hn hn'
  above_root n way hn := Node.above?_of_follow? h hn

/-- **Whatever is built hangs together.** After any calls parents and children agree with each other
and with the adoptions made. A further call for a node makes it exactly when what it adopts is free,
and otherwise changes nothing. Any node that is free can be made the root of a tree, and no other
one; that tree is rooted. -/
theorem calls_build_trees (calls : List Call) :
    let b := Builder.empty.after calls
    let made := Builder.empty.made calls
    b.Linked made ∧
      (∀ kind slots,
        (b.AreFree (slots.map (·.2)) → (b.answer (.node kind slots)).1 = .ok b.next) ∧
        (¬b.AreFree (slots.map (·.2)) → ∃ fault, b.answer (.node kind slots) = (.error fault, b))) ∧
      ∀ root, ((∃ t, b.finish root = .ok t) ↔ b.AreFree [root]) ∧
        ∀ t, b.finish root = .ok t → t.root = root ∧ t.entries = b.entries ∧ t.Rooted made := by
  intro b made
  have hempty : Stores Builder.empty.entries [] := Stores.empty
  have hstores : Stores b.entries made := hempty.after calls
  refine ⟨Builder.linked_of_stores hstores, ?_, ?_⟩
  · intro kind slots
    exact ⟨fun h => (Builder.answer_of_areFree h kind).1,
      fun h => (Builder.answer_of_not_areFree h kind).1⟩
  · intro root
    refine ⟨Builder.exists_finish_iff, ?_⟩
    intro t ht
    have hentries := Builder.entries_of_finish ht
    rw [← hentries] at hstores
    exact ⟨Builder.root_of_finish ht, hentries,
      rooted_of_stores hstores (Builder.parent_rootNode_of_finish ht)⟩

/-- Two leaves become a pair in the other order, and the pair an item of a list. Calls that list a
node twice, that list a node with a parent or that list an unknown node fail. -/
def callsForPair : List Call :=
  [.leaf "name" "a", .leaf "name" "b",
    .node "twice" [(.child, ⟨0⟩), (.child, ⟨0⟩)],
    .node "pair" [(⟨"left", none⟩, ⟨1⟩), (⟨"right", none⟩, ⟨0⟩)],
    .node "again" [(.child, ⟨0⟩)],
    .node "unknown" [(.child, ⟨9⟩)],
    .node "list" [(.child, ⟨2⟩)]]

theorem pair_in_list_is_rooted :
    ∃ t, (Builder.empty.after callsForPair).finish ⟨3⟩ = .ok t ∧
      t.Rooted [⟨⟨2⟩, ⟨"left", none⟩, ⟨1⟩⟩, ⟨⟨2⟩, ⟨"right", none⟩, ⟨0⟩⟩, ⟨⟨3⟩, .child, ⟨2⟩⟩] := by
  obtain ⟨-, -, h⟩ := calls_build_trees callsForPair
  obtain ⟨hfinish, hrooted⟩ := h ⟨3⟩
  have hfree : (Builder.empty.after callsForPair).AreFree [⟨3⟩] :=
    Builder.areFree_singleton_iff.2 ⟨_, rfl, rfl⟩
  obtain ⟨t, ht⟩ := hfinish.2 hfree
  exact ⟨t, ht, (hrooted t ht).2.2⟩

end Tree
end StructuralSearch
