import StructuralSearch.Proofs.Source.Order

/-!
# Nodes that lie in each other

A node is above another one when it lies on the way to that one. Where the ranges of a tree nest,
pre-order tells how two nodes lie: the earlier one is above the later one and encloses it, or ends
before that one begins.
-/
namespace StructuralSearch

namespace SourceNode

/-! ## What is above what -/

/-- The node lies on the way to the other one, and is not that one. -/
def IsAbove (n m : SourceNode) : Prop :=
  n.way <+: m.way ∧ n.way ≠ m.way

instance (n m : SourceNode) : Decidable (n.IsAbove m) :=
  inferInstanceAs (Decidable (_ ∧ _))

theorem IsAbove.trans {n m k : SourceNode} (h : n.IsAbove m) (h' : m.IsAbove k) : n.IsAbove k := by
  refine ⟨h.1.trans h'.1, ?_⟩
  intro he
  have hle := h'.1
  rw [← he] at hle
  exact h.2 (h.1.eq_of_length_le hle.length_le)

theorem isAbove_of_within {n c m : SourceNode} (hc : c ∈ n.below) (hm : Within c m) :
    n.IsAbove m := by
  obtain ⟨i, hi⟩ := List.mem_iff_getElem?.1 hc
  obtain ⟨steps, hsteps⟩ := hm.exists_way_of_getElem?_below hi
  rw [IsAbove, hsteps]
  exact ⟨List.prefix_append _ _, fun he => by simp at he⟩

theorem IsAbove.way_lt {n m : SourceNode} (h : n.IsAbove m) : n.way < m.way := by
  obtain ⟨⟨steps, hsteps⟩, hne⟩ := h
  cases steps with
  | nil => exact absurd ((List.append_nil _).symm.trans hsteps) hne
  | cons i steps =>
    rw [← hsteps]
    exact lt_append_cons n.way i steps

/-- What is below one child of a node is not above what is below another one. -/
theorem not_isAbove_of_ne {n m k : SourceNode} {i j : Nat} {steps steps' : List Nat} (hij : i ≠ j)
    (hm : m.way = n.way ++ i :: steps) (hk : k.way = n.way ++ j :: steps') : ¬m.IsAbove k := by
  rintro ⟨hle, -⟩
  rw [hm, hk, List.prefix_append_right_inj, List.cons_prefix_cons] at hle
  exact hij hle.1

/-- In one tree a node is above another one when that one lies below it. -/
theorem isAbove_iff {root n m : SourceNode} (hn : Within root n) (hm : Within root m) :
    n.IsAbove m ↔ ∃ c ∈ n.below, Within c m := by
  constructor
  · intro h
    have hpairs : root.preOrder.Pairwise fun a b => a.IsAbove b → ∃ c ∈ a.below, Within c b := by
      apply pairwise_preOrder
      · intro a _ c hc b hb _
        exact ⟨c, hc, hb⟩
      · intro p _ i j c d hij hc hd a ha b hb habove
        obtain ⟨_, hway⟩ := ha.exists_way_of_getElem?_below hc
        obtain ⟨_, hway'⟩ := hb.exists_way_of_getElem?_below hd
        exact absurd habove (not_isAbove_of_ne (Nat.ne_of_lt hij) hway hway')
    obtain ⟨i, hi, rfl⟩ := List.mem_iff_getElem.1 (mem_preOrder_iff.2 hn)
    obtain ⟨j, hj, rfl⟩ := List.mem_iff_getElem.1 (mem_preOrder_iff.2 hm)
    rcases Nat.lt_trichotomy i j with hij | rfl | hij
    · exact List.pairwise_iff_getElem.1 hpairs i j hi hj hij h
    · exact absurd rfl h.2
    · have hlt := List.pairwise_iff_getElem.1 root.pairwise_way_preOrder j i hj hi hij
      exact absurd (List.lt_trans hlt h.way_lt) (List.lt_irrefl _)
  · rintro ⟨c, hc, hm⟩
    exact isAbove_of_within hc hm

/-! ## Ranges that nest -/

/-- The ranges of the children lie inside the range of the node, in order, and do not overlap. Any
of them may be empty. -/
structure Encloses (n : SourceNode) : Prop where
  forward : n.range.start ≤ n.range.stop
  inside : ∀ c ∈ n.below, n.range.start ≤ c.range.start ∧ c.range.stop ≤ n.range.stop
  inOrder : n.below.Pairwise fun c d => c.range.stop ≤ d.range.start

instance (n : SourceNode) : Decidable n.Encloses :=
  decidable_of_iff
    (n.range.start ≤ n.range.stop ∧
      (∀ c ∈ n.below, n.range.start ≤ c.range.start ∧ c.range.stop ≤ n.range.stop) ∧
      n.below.Pairwise fun c d => c.range.stop ≤ d.range.start)
    ⟨fun h => ⟨h.1, h.2.1, h.2.2⟩, fun h => ⟨h.forward, h.inside, h.inOrder⟩⟩

theorem Encloses.stop_le_start {n c d : SourceNode} (h : n.Encloses) {i j : Nat} (hij : i < j)
    (hc : n.below[i]? = some c) (hd : n.below[j]? = some d) : c.range.stop ≤ d.range.start := by
  obtain ⟨hi, rfl⟩ := List.getElem?_eq_some_iff.1 hc
  obtain ⟨hj, rfl⟩ := List.getElem?_eq_some_iff.1 hd
  exact List.pairwise_iff_getElem.1 h.inOrder i j hi hj hij

theorem Within.inside {root n : SourceNode} (h : Within root n)
    (hranges : ∀ m, Within root m → m.Encloses) :
    root.range.start ≤ n.range.start ∧ n.range.stop ≤ root.range.stop := by
  induction h with
  | refl => exact ⟨Nat.le_refl _, Nat.le_refl _⟩
  | tail hn hc ih =>
    have hin := (hranges _ hn).inside _ hc
    exact ⟨Nat.le_trans ih.1 hin.1, Nat.le_trans hin.2 ih.2⟩

/-- How a node lies to one that comes after it: it encloses that one, or it ends before. -/
structure Precedes (n m : SourceNode) : Prop where
  not_above : ¬m.IsAbove n
  encloses : n.IsAbove m → m.range.stop ≤ n.range.stop
  ends : ¬n.IsAbove m → n.range.stop ≤ m.range.start

theorem pairwise_precedes_preOrder {root : SourceNode}
    (hranges : ∀ n, Within root n → n.Encloses) : root.preOrder.Pairwise Precedes := by
  have hways := root.pairwise_way_preOrder
  have hlie : root.preOrder.Pairwise fun n m => (n.IsAbove m → m.range.stop ≤ n.range.stop) ∧
      (¬n.IsAbove m → n.range.stop ≤ m.range.start) := by
    apply pairwise_preOrder
    · intro n hn c hc m hm
      refine ⟨fun _ => ?_, fun habove => absurd (isAbove_of_within hc hm) habove⟩
      have hin := hm.inside fun k hk => hranges k ((hn.tail hc).trans hk)
      exact Nat.le_trans hin.2 ((hranges n hn).inside c hc).2
    · intro p hp i j c d hij hc hd n hn m hm
      obtain ⟨_, hway⟩ := hn.exists_way_of_getElem?_below hc
      obtain ⟨_, hway'⟩ := hm.exists_way_of_getElem?_below hd
      refine ⟨fun habove => absurd habove (not_isAbove_of_ne (Nat.ne_of_lt hij) hway hway'),
        fun _ => ?_⟩
      have hin := hn.inside fun k hk => hranges k ((hp.tail (List.mem_of_getElem? hc)).trans hk)
      have hin' := hm.inside fun k hk => hranges k ((hp.tail (List.mem_of_getElem? hd)).trans hk)
      have horder : c.range.stop ≤ d.range.start := (hranges p hp).stop_le_start hij hc hd
      exact Nat.le_trans hin.2 (Nat.le_trans horder hin'.1)
  refine hways.imp₂ ?_ hlie
  intro n m hlt hlie
  exact ⟨fun habove => List.lt_irrefl _ (List.lt_trans hlt habove.way_lt), hlie.1, hlie.2⟩

end SourceNode

end StructuralSearch
