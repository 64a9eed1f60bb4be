import Mathlib.Logic.Relation
import StructuralSearch.Source.Walk

/-!
# The order of a walk

A walk that only steps to a first child, a next sibling or a parent still comes to every node of the
tree, and to each of them once: what it visits from a node on is the subtree in pre-order, and then
what it visits from where it climbs to. Pre-order is the order of the ways from the root.
-/
namespace StructuralSearch

theorem flatMap_attach {α β : Type} (as : List α) (f : α → List β) :
    (as.attach.flatMap fun a => f a.1) = as.flatMap f := by
  rw [← List.flatMap_map Subtype.val f, List.attach_map_subtype_val]

namespace SourceNode

theorem getElem?_below (n : SourceNode) (i : Nat) :
    n.below[i]? = n.tree.children[i]?.map fun t => ⟨n.source, (i, n.tree) :: n.trail, t⟩ := by
  rw [below, List.getElem?_map, List.getElem?_zipIdx]
  cases n.tree.children[i]? with
  | none => rfl
  | some t => simp

theorem firstChild?_eq (n : SourceNode) : n.firstChild? = n.below[0]? :=
  (n.getElem?_below 0).symm

theorem path_of_getElem?_below {n c : SourceNode} {i : Nat} (h : n.below[i]? = some c) :
    c.path = i :: n.path := by
  rw [getElem?_below] at h
  obtain ⟨t, -, rfl⟩ := Option.map_eq_some_iff.1 h
  rfl

theorem map_node_children (n : SourceNode) :
    n.children.map (·.node) = n.below.filter fun c => !c.label.extra := by
  rw [children, List.map_map]
  exact List.map_id _

theorem source_of_mem_below {n c : SourceNode} (h : c ∈ n.below) : c.source = n.source := by
  obtain ⟨_, -, rfl⟩ := List.mem_map.1 h
  rfl

theorem source_of_mem_children {n : SourceNode} {c : Child SourceNode} (h : c ∈ n.children) :
    c.node.source = n.source :=
  source_of_mem_below (mem_below_of_mem_children h)

theorem source_of_mem_preOrder {n m : SourceNode} (h : m ∈ n.preOrder) : m.source = n.source := by
  fun_induction preOrder n with
  | case1 n ih =>
    rcases List.mem_cons.1 h with rfl | h
    · rfl
    · obtain ⟨c, -, hm⟩ := List.mem_flatMap.1 h
      rw [ih c hm, source_of_mem_below c.2]

/-! ## What a walk visits -/

/-- From below a node a walk goes on with the next child, or else with what comes after the node. -/
theorem climb?_of_getElem?_below {n c : SourceNode} {i : Nat} (h : n.below[i]? = some c) :
    c.climb? = n.below[i + 1]?.or n.climb? := by
  rw [getElem?_below] at h
  obtain ⟨t, -, rfl⟩ := Option.map_eq_some_iff.1 h
  rw [climb?]
  have hnext : nextSibling? ⟨n.source, (i, n.tree) :: n.trail, t⟩ = n.below[i + 1]? :=
    (n.getElem?_below (i + 1)).symm
  rw [hnext]
  cases n.below[i + 1]? with
  | some next => rfl
  | none => rfl

/-- The nodes that a walk visits from a node on that may be missing. -/
def walkFrom (n? : Option SourceNode) : List SourceNode :=
  n?.elim [] walk

theorem walk_eq_cons (n : SourceNode) : n.walk = n :: walkFrom n.next? := by
  rw [walk]
  split
  · rename_i next hnext
    show n :: next.walk = n :: walkFrom n.next?
    rw [hnext]
    rfl
  · rename_i hnone
    rw [hnone]
    rfl

theorem preOrder_eq (n : SourceNode) : n.preOrder = n :: n.below.flatMap preOrder := by
  rw [preOrder, flatMap_attach n.below preOrder]

/-- A walk from one of the children visits the rest of them one after the other. -/
theorem walkFrom_below {n : SourceNode}
    (hbelow : ∀ c ∈ n.below, c.walk = c.preOrder ++ walkFrom c.climb?) (i : Nat) :
    walkFrom (n.below[i]?.or n.climb?) =
      (n.below.drop i).flatMap preOrder ++ walkFrom n.climb? := by
  induction hd : n.below.length - i generalizing i with
  | zero =>
    rw [List.getElem?_eq_none (by omega), List.drop_eq_nil_of_le (by omega)]
    rfl
  | succ d ih =>
    have hi : i < n.below.length := by omega
    have hget : n.below[i]? = some n.below[i] := List.getElem?_eq_getElem hi
    calc walkFrom (n.below[i]?.or n.climb?)
        = n.below[i].walk := by rw [hget]; rfl
      _ = n.below[i].preOrder ++ walkFrom n.below[i].climb? := hbelow _ (List.getElem_mem hi)
      _ = n.below[i].preOrder ++
            ((n.below.drop (i + 1)).flatMap preOrder ++ walkFrom n.climb?) := by
          rw [climb?_of_getElem?_below hget, ih (i + 1) (by omega)]
      _ = (n.below.drop i).flatMap preOrder ++ walkFrom n.climb? := by
          rw [List.drop_eq_getElem_cons hi, List.flatMap_cons, List.append_assoc]

/-- A walk visits the subtree in pre-order before it climbs. -/
theorem walk_eq_append (n : SourceNode) : n.walk = n.preOrder ++ walkFrom n.climb? := by
  induction hsize : n.tree.size using Nat.strongRecOn generalizing n with
  | ind size ih =>
    have hbelow : ∀ c ∈ n.below, c.walk = c.preOrder ++ walkFrom c.climb? :=
      fun c hc => ih c.tree.size (hsize ▸ size_lt_of_mem_below hc) c rfl
    rw [walk_eq_cons, next?, firstChild?_eq, walkFrom_below hbelow 0, preOrder_eq]
    rfl

end SourceNode

theorem ParsedSource.nodes_eq_preOrder (s : ParsedSource) : s.nodes = s.root.preOrder := by
  have hend : s.root.climb? = none := by
    rw [SourceNode.climb?]
    rfl
  rw [nodes, SourceNode.walk_eq_append, hend]
  exact List.append_nil _

namespace SourceNode

/-! ## Every node once -/

/-- The node is the other one or lies anywhere below it. -/
def Within (root n : SourceNode) : Prop :=
  Relation.ReflTransGen (fun above c => c ∈ above.below) root n

theorem mem_preOrder_self (n : SourceNode) : n ∈ n.preOrder := by
  rw [preOrder_eq]
  exact List.mem_cons_self

theorem mem_preOrder_of_mem_below {root n c : SourceNode} (h : n ∈ root.preOrder)
    (hc : c ∈ n.below) : c ∈ root.preOrder := by
  fun_induction preOrder root with
  | case1 root ih =>
    rcases List.mem_cons.1 h with rfl | h
    · refine List.mem_cons_of_mem _ (List.mem_flatMap.2 ⟨⟨c, hc⟩, List.mem_attach _ _, ?_⟩)
      exact c.mem_preOrder_self
    · obtain ⟨child, hchild, hn⟩ := List.mem_flatMap.1 h
      exact List.mem_cons_of_mem _ (List.mem_flatMap.2 ⟨child, hchild, ih child hn⟩)

theorem mem_preOrder_iff {root n : SourceNode} : n ∈ root.preOrder ↔ Within root n := by
  constructor
  · intro h
    fun_induction preOrder root with
    | case1 root ih =>
      rcases List.mem_cons.1 h with rfl | h
      · exact .refl
      · obtain ⟨c, -, hn⟩ := List.mem_flatMap.1 h
        exact .head c.2 (ih c hn)
  · intro h
    induction h with
    | refl => exact root.mem_preOrder_self
    | tail _ hc ih => exact mem_preOrder_of_mem_below ih hc

/-- What relates a node to all that is below it, and all that is below one child to all that is
below a later one, relates each node to those that come after it. -/
theorem pairwise_preOrder {root : SourceNode} {R : SourceNode → SourceNode → Prop}
    (hdown : ∀ n, Within root n → ∀ c ∈ n.below, ∀ m, Within c m → R n m)
    (hacross : ∀ n, Within root n → ∀ (i j : Nat) c d, i < j → n.below[i]? = some c →
      n.below[j]? = some d → ∀ m, Within c m → ∀ k, Within d k → R m k) :
    root.preOrder.Pairwise R := by
  induction hsize : root.tree.size using Nat.strongRecOn generalizing root with
  | ind size ih =>
    rw [preOrder_eq, List.pairwise_cons, List.pairwise_flatMap]
    refine ⟨?_, ?_, ?_⟩
    · intro m hm
      obtain ⟨c, hc, hm⟩ := List.mem_flatMap.1 hm
      exact hdown root .refl c hc m (mem_preOrder_iff.1 hm)
    · intro c hc
      exact ih c.tree.size (hsize ▸ size_lt_of_mem_below hc) (fun n hn => hdown n (.head hc hn))
        (fun n hn => hacross n (.head hc hn)) rfl
    · rw [List.pairwise_iff_getElem]
      intro i j hi hj hij m hm k hk
      exact hacross root .refl i j _ _ hij (List.getElem?_eq_getElem hi)
        (List.getElem?_eq_getElem hj) m (mem_preOrder_iff.1 hm) k (mem_preOrder_iff.1 hk)

/-- The way from the root to the node: at each step the index of the child that it goes to. -/
def way (n : SourceNode) : List Nat :=
  n.path.reverse

theorem way_of_getElem?_below {n c : SourceNode} {i : Nat} (h : n.below[i]? = some c) :
    c.way = n.way ++ [i] := by
  rw [way, path_of_getElem?_below h, List.reverse_cons]
  rfl

theorem Within.exists_way {root n : SourceNode} (h : Within root n) :
    ∃ steps, n.way = root.way ++ steps := by
  induction h with
  | refl => exact ⟨[], (List.append_nil _).symm⟩
  | tail _ hc ih =>
    obtain ⟨steps, hsteps⟩ := ih
    obtain ⟨i, hi⟩ := List.mem_iff_getElem?.1 hc
    exact ⟨steps ++ [i], by rw [way_of_getElem?_below hi, hsteps, List.append_assoc]⟩

theorem Within.exists_way_of_getElem?_below {n c m : SourceNode} {i : Nat} (h : Within c m)
    (hc : n.below[i]? = some c) : ∃ steps, m.way = n.way ++ i :: steps := by
  obtain ⟨steps, hsteps⟩ := h.exists_way
  exact ⟨steps, by rw [hsteps, way_of_getElem?_below hc, List.append_assoc]; rfl⟩

theorem lt_append_cons (way : List Nat) (i : Nat) (steps : List Nat) : way < way ++ i :: steps := by
  have hlt : way ++ [] < way ++ i :: steps := List.append_left_lt (List.nil_lt_cons i steps)
  rwa [List.append_nil] at hlt

/-- In pre-order the ways from the root increase: a node comes before those below it, and those
below one child come before those below a later one. -/
theorem pairwise_way_preOrder (root : SourceNode) :
    root.preOrder.Pairwise fun m n => m.way < n.way := by
  apply pairwise_preOrder
  · intro n _ c hc m hm
    obtain ⟨i, hi⟩ := List.mem_iff_getElem?.1 hc
    obtain ⟨steps, hsteps⟩ := hm.exists_way_of_getElem?_below hi
    rw [hsteps]
    exact lt_append_cons n.way i steps
  · intro n _ i j c d hij hc hd m hm k hk
    obtain ⟨steps, hsteps⟩ := hm.exists_way_of_getElem?_below hc
    obtain ⟨steps', hsteps'⟩ := hk.exists_way_of_getElem?_below hd
    rw [hsteps, hsteps']
    exact List.append_left_lt (List.cons_lt_cons_iff.2 (.inl hij))

end SourceNode
end StructuralSearch
