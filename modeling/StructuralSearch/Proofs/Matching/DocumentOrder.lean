import StructuralSearch.Proofs.Matching.BoundNames
import StructuralSearch.Proofs.Tree.PreOrder

/-!
# Bindings in document order

A name can be bound in many places: by several patterns, in each time of a repetition, and at
different levels of a tree. Still the nodes bound to it come in document order, and none of them
lies below another, as long as the name is not bound again inside a capture of its own. What a
pattern binds between two positions lies in the trees between them, and matching goes through these
from left to right.
-/
namespace StructuralSearch

variable {ν : Type}

namespace Pattern

/-- Nothing that binds the name occurs inside a capture of it. -/
def Unnested (name : String) (os : List Occurrence) : Prop :=
  ∀ o ∈ os, ∀ inner, o.pattern = .capture name inner → name ∉ boundIn (occurrences inner)

/-- What is inside a capture of the name. -/
def insideCapture? (name : String) : Pattern → Option Pattern
  | .capture other inner => if other = name then some inner else none
  | _ => none

theorem mem_insideCapture? {name : String} {p inner : Pattern} :
    inner ∈ p.insideCapture? name ↔ p = .capture name inner := by
  cases p <;> simp [insideCapture?]

instance (name : String) (os : List Occurrence) : Decidable (Unnested name os) :=
  decidable_of_iff
    (∀ o ∈ os, ∀ inner ∈ o.pattern.insideCapture? name, name ∉ boundIn (occurrences inner)) <| by
    simp only [Unnested, mem_insideCapture?]

theorem unnested_append_iff {name : String} {os os' : List Occurrence} :
    Unnested name (os ++ os') ↔ Unnested name os ∧ Unnested name os' :=
  List.forall_mem_append

theorem unnested_below_iff {name : String} {turn : Turn} {os : List Occurrence} :
    Unnested name (os.map (.below turn)) ↔ Unnested name os :=
  List.forall_mem_map

theorem Unnested.inner {name : String} {turn : Turn} {p q : Pattern}
    (h : Unnested name ((occurrences p).map (.below turn) ++ [⟨[], q⟩])) :
    Unnested name (occurrences p) :=
  unnested_below_iff.1 (unnested_append_iff.1 h).1

theorem Unnested.of_mem {name : String} {turn : Nat → Turn} {i : Nat} {ps : List Pattern}
    (h : Unnested name (occurrencesFrom turn i ps)) : ∀ p ∈ ps, Unnested name (occurrences p) := by
  intro p hp o ho inner hinner
  obtain ⟨o', ho', hpattern⟩ := exists_mem_occurrencesFrom turn i hp ho
  exact h o' ho' inner (hpattern.trans hinner)

theorem Unnested.of_mem_slots {name : String} {i : Nat} {slots : List (Role × Pattern)}
    (h : Unnested name (occurrencesInSlots i slots)) :
    ∀ s ∈ slots, Unnested name (occurrences s.2) := by
  intro s hs o ho inner hinner
  obtain ⟨o', ho', hpattern⟩ := exists_mem_occurrencesInSlots i hs ho
  exact h o' ho' inner (hpattern.trans hinner)

end Pattern

/-- From one place among siblings to another, further on, the name has been bound to nodes in the
trees between the two. These come in document order and apart from each other: so do all nodes that
lie in their trees. -/
def Outcome.InOrder (v : TreeView ν) (name : String) (siblings : Array (Child ν))
    (start stop : Outcome ν) : Prop :=
  start.index ≤ stop.index ∧ ∃ nodes, stop.log.boundTo name = start.log.boundTo name ++ nodes ∧
    (nodes.flatMap v.preOrder).Sublist
      ((between siblings start.index stop.index).flatMap fun c => v.preOrder c.node)

namespace Outcome.InOrder

variable {v : TreeView ν} {name : String} {siblings : Array (Child ν)} {o o' o'' : Outcome ν}

theorem unbound (hle : o.index ≤ o'.index) (h : o'.log.boundTo name = o.log.boundTo name) :
    InOrder v name siblings o o' :=
  ⟨hle, [], h.trans (List.append_nil _).symm, List.nil_sublist _⟩

theorem refl (o : Outcome ν) : InOrder v name siblings o o :=
  .unbound (Nat.le_refl o.index) rfl

theorem trans (h : InOrder v name siblings o o') (h' : InOrder v name siblings o' o'') :
    InOrder v name siblings o o'' := by
  obtain ⟨hle, nodes, hlog, hsub⟩ := h
  obtain ⟨hle', nodes', hlog', hsub'⟩ := h'
  refine ⟨Nat.le_trans hle hle', nodes ++ nodes', ?_, ?_⟩
  · rw [hlog', hlog, List.append_assoc]
  · rw [← between_append hle hle', List.flatMap_append, List.flatMap_append]
    exact hsub.append hsub'

/-- All siblings between two places are bound to the name, and nothing before that. -/
theorem addRun {log log' : Log ν} {i j : Nat} (hij : i ≤ j)
    (h : log'.boundTo name = log.boundTo name) {nodes : List ν}
    (hnodes : (between siblings i j).map (·.node) = nodes) :
    InOrder v name siblings ⟨i, log⟩ ⟨j, log'.addRun name nodes⟩ := by
  refine ⟨hij, nodes, ?_, ?_⟩
  · rw [Log.boundTo_addRun, if_pos rfl, h]
  · rw [← hnodes, List.flatMap_map]

theorem addRun_of_ne (h : InOrder v name siblings o o') {other : String} (hne : other ≠ name)
    (nodes : List ν) : InOrder v name siblings o ⟨o'.index, o'.log.addRun other nodes⟩ := by
  refine h.trans (.unbound (Nat.le_refl _) ?_)
  rw [Log.boundTo_addRun, if_neg hne, List.append_nil]

/-- Nodes bound below a sibling lie in its tree. -/
theorem below {child : Child ν} {i : Nat} (hchild : siblings[i]? = some child) {log : Log ν}
    (h : InOrder v name (v.children child.node).toArray ⟨0, log⟩ o)
    (hend : o.index = (v.children child.node).length) :
    InOrder v name siblings ⟨i, log⟩ ⟨i + 1, o.log⟩ := by
  obtain ⟨-, nodes, hlog, hsub⟩ := h
  refine ⟨Nat.le_succ i, nodes, hlog, ?_⟩
  rw [hend, between_all] at hsub
  rw [between_succ hchild, List.flatMap_singleton, TreeView.preOrder_eq]
  exact hsub.cons _

end Outcome.InOrder

namespace Pattern

/-- The outcomes of a pattern bind the name in order. -/
def BindsInOrder (t : Target ν) (name : String) (p : Pattern) : Prop :=
  ∀ slot siblings i log, ∀ o ∈ outcomes t p slot siblings i log,
    Outcome.InOrder t.toTreeView name siblings ⟨i, log⟩ o

theorem inOrder_inTurn {t : Target ν} {name : String} {slots : List (Role × Pattern)}
    (hslots : ∀ s ∈ slots, s.2.BindsInOrder t name) {siblings : Array (Child ν)} {i : Nat}
    {log : Log ν} {o : Outcome ν} (ho : o ∈ outcomesInTurn t slots siblings i log) :
    Outcome.InOrder t.toTreeView name siblings ⟨i, log⟩ o :=
  rel_of_mem_outcomesInTurn .refl (fun _ _ _ => .trans)
    (fun s hs i log => hslots s hs s.1 siblings i log) ho

theorem BindsInOrder.repetition {t : Target ν} {name : String} {p : Pattern}
    (hp : p.BindsInOrder t name) {slot : Role} {siblings : Array (Child ν)} {min : Nat}
    {max : Option Nat} {count i : Nat} {log : Log ν} {o : Outcome ν}
    (ho : o ∈ repeatOutcomes siblings.size (p.outcomes t slot siblings) min max count i log) :
    Outcome.InOrder t.toTreeView name siblings ⟨i, log⟩ o :=
  rel_of_mem_repeatOutcomes .refl (fun _ _ _ => .trans) (hp slot siblings) ho

theorem bindsInOrder (t : Target ν) {name : String} (p : Pattern)
    (hname : Unnested name (occurrences p)) : p.BindsInOrder t name := by
  induction p using Pattern.induct with
  | any other =>
    intro slot siblings i log o ho
    obtain ⟨child, hchild, rfl⟩ := List.mem_map.1 ho
    have hat := getElem?_of_fittingAt? (Option.mem_toList.1 hchild)
    cases other with
    | none => exact .unbound (Nat.le_succ i) rfl
    | some other =>
      by_cases hother : other = name
      · subst hother
        have hnodes : (between siblings i (i + 1)).map (·.node) = [child.node] := by
          rw [between_succ hat]
          rfl
        exact Outcome.InOrder.addRun (Nat.le_succ i) (Eq.refl (log.boundTo other)) hnodes
      · have hskip : Outcome.InOrder t.toTreeView name siblings ⟨i, log⟩ ⟨i + 1, log⟩ :=
          .unbound (Nat.le_succ i) rfl
        exact hskip.addRun_of_ne hother [child.node]
  | capture other p ih =>
    intro slot siblings i log o ho
    obtain ⟨inner, hinner, rfl⟩ := List.mem_map.1 ho
    by_cases hother : other = name
    · subst hother
      have hown := hname _ (List.mem_append_right _ (List.mem_singleton_self _)) p rfl
      exact .addRun (inReach_outcomes t p slot siblings i log inner hinner).1
        ((gainsNames t p slot siblings i log inner hinner).boundTo_eq hown) rfl
    · exact (ih hname.inner slot siblings i log inner hinner).addRun_of_ne hother _
  | optional p ih =>
    intro slot siblings i log o ho
    rcases List.mem_append.1 ho with ho | ho
    · exact ih hname.inner slot siblings i log o ho
    · obtain rfl := List.mem_singleton.1 ho
      exact .refl _
  | repetition p min max ih =>
    intro slot siblings i log o ho
    exact (ih hname.inner).repetition ho
  | choice ps ih =>
    intro slot siblings i log o ho
    rw [outcomes, outcomesOfEach_eq_flatMap] at ho
    obtain ⟨p, hp, ho⟩ := List.mem_flatMap.1 ho
    have halternatives := (unnested_append_iff.1 hname).1
    exact ih p hp (halternatives.of_mem p hp) slot siblings i log o ho
  | backreference other =>
    intro slot siblings i log o ho
    obtain ⟨child, -, rfl⟩ := List.mem_map.1 ho
    exact .unbound (Nat.le_succ i) rfl
  | literal kind text slots ih =>
    intro slot siblings i log o ho
    obtain ⟨child, hchild, ho⟩ := List.mem_flatMap.1 ho
    obtain ⟨inner, hinner, rfl⟩ := List.mem_map.1 ho
    obtain ⟨hinner, hend⟩ := List.mem_filter.1 hinner
    have hslots := (unnested_append_iff.1 hname).1
    have hbelow := inOrder_inTurn (fun s hs => ih s hs (hslots.of_mem_slots s hs)) hinner
    exact hbelow.below
      (getElem?_of_fittingAt? (Option.mem_toList.1 (List.mem_filter.1 hchild).1)) (beq_iff_eq.1 hend)
  | adapter construct p ih =>
    intro slot siblings i log o ho
    exact ih hname.inner slot siblings i log o (List.mem_filter.1 ho).1

end Pattern

/-- The trees of the nodes bound to the name are found in this order in the trees of the
siblings. -/
theorem flatMap_preOrder_get_sublist {t : Target ν} {name : String} {elements : List Pattern}
    (hname : Pattern.Unnested name (Pattern.occurrencesIn elements)) {siblings : List (Child ν)}
    {m : Match ν} (hm : m ∈ matchesOf t elements siblings) :
    ((m.get name).flatMap t.preOrder).Sublist (siblings.flatMap fun c => t.preOrder c.node) := by
  obtain ⟨o, ho, rfl⟩ := List.mem_map.1 hm
  obtain ⟨ho, hend⟩ := List.mem_filter.1 ho
  have helements : ∀ s ∈ inNoSlot elements, s.2.BindsInOrder t name :=
    List.forall_mem_map.2 fun p hp => Pattern.bindsInOrder t p (hname.of_mem p hp)
  obtain ⟨-, nodes, hlog, hsub⟩ := Pattern.inOrder_inTurn helements ho
  rw [beq_iff_eq.1 hend, between_all] at hsub
  rw [Match.get_ofLog, hlog]
  exact hsub

open StructuralSearch.Tree

/-- **Bindings come in document order.** In a built tree let a pattern be matched with a node or
with its children. The nodes that a match binds to a name come in the pre-order of that node, in
which no node comes twice, and none of them is above another, when nothing binds the name inside a
capture of it. -/
theorem bindings_in_document_order (p : CheckedPattern) {name : String}
    (hname : Pattern.Unnested name (Pattern.occurrencesIn p.elements)) {n : Node}
    (hn : n.tree.Built) :
    (Node.view.preOrder n).Nodup ∧
      ∀ m, m ∈ (p.onNode n).results Node.view.exactly ∨
          m ∈ (p.onChildren Node.view.exactly n).results Node.view.exactly →
        (m.get name).Sublist (Node.view.preOrder n) ∧ (m.get name).Nodup ∧
          (m.get name).Pairwise fun a b => ∀ k, a.above? k ≠ some b ∧ b.above? k ≠ some a := by
  obtain ⟨made, hstores⟩ := hn.exists_stores
  have hnodup := Node.nodup_preOrder hstores
  refine ⟨hnodup, fun m hm => ?_⟩
  have htrees : ((m.get name).flatMap Node.view.preOrder).Sublist (Node.view.preOrder n) := by
    rcases hm with hm | hm
    · rw [CheckedPattern.onNode, CheckedPattern.onSequence, Matcher.results_start] at hm
      have hsub := flatMap_preOrder_get_sublist hname hm
      rwa [List.map_singleton, List.flatMap_singleton] at hsub
    · rw [CheckedPattern.onChildren, Matcher.results_start] at hm
      rw [TreeView.preOrder_eq Node.view n]
      exact (flatMap_preOrder_get_sublist hname hm).cons n
  have hsub := (Node.view.sublist_flatMap_preOrder (m.get name)).trans htrees
  have hstored : ∀ a ∈ m.get name, Tree.Stores a.tree.entries made := by
    intro a ha
    rw [Node.tree_of_mem_preOrder hstores (hsub.mem ha)]
    exact hstores
  refine ⟨hsub, hnodup.sublist hsub, ?_⟩
  refine (List.nodup_flatMap.1 (hnodup.sublist htrees)).2.imp_of_mem ?_
  intro a b ha hb hdisjoint k
  exact ⟨Node.above?_ne_of_disjoint (hstored b hb) hdisjoint k,
    Node.above?_ne_of_disjoint (hstored a ha) (fun _ h h' => hdisjoint h' h) k⟩

/-- A name for what blocks hold and for whole nodes. -/
def contentsOrNodes : CheckedPattern where
  elements := [.repetition (.choice [
    .literal "block" none [⟨.child, .capture "x" (.repetition (.any none) 0 none)⟩],
    .any (some "x")]) 0 none]
  captures := ["x"]
  checked := rfl

/-- The tree `list(a, block(b))`. -/
def listWithBlock : Tree where
  entries := #[{ kind := "item", text := some "a", role := .child, parent := some ⟨3⟩ },
    { kind := "item", text := some "b", role := .child, parent := some ⟨2⟩ },
    { kind := "block", text := none, role := .child, parent := some ⟨3⟩, children := [⟨1⟩] },
    { kind := "list", text := none, children := [⟨0⟩, ⟨2⟩] }]
  root := ⟨3⟩
  childrenFirst := childrenFirst_push (childrenFirst_push (childrenFirst_push (childrenFirst_push
    childrenFirst_empty (by simp)) (by simp)) (by simp)) (by simp)
  root_lt := Nat.lt_add_one 3

theorem built_listWithBlock : listWithBlock.Built := by
  have hblock : ((Builder.empty.addLeaf "item" "a").2.addLeaf "item" "b").2.addNode "block"
      [(.child, ⟨1⟩)] = .ok (⟨2⟩, _) := rfl
  exact ⟨_, ⟨3⟩, .node (.node (.leaf "item" "b" (.leaf "item" "a" .empty)) hblock)
    (Eq.refl (Builder.addNode _ "list" [(.child, ⟨0⟩), (.child, ⟨2⟩)])), rfl⟩

/-- The name is bound to the leaf `a` and to what the block holds, or to the leaf and the block. -/
theorem contentsOrNodes_in_document_order :
    listWithBlock.Built ∧ Pattern.Unnested "x" (Pattern.occurrencesIn contentsOrNodes.elements) ∧
      let results := (contentsOrNodes.onChildren Node.view.exactly
        listWithBlock.rootNode).results Node.view.exactly
      (results.map fun m => (m.get "x").map (·.number.index)) = [[0, 1], [0, 2]] ∧
      (Node.view.preOrder listWithBlock.rootNode).Nodup ∧
      ∀ m ∈ results, (m.get "x").Sublist (Node.view.preOrder listWithBlock.rootNode) ∧
        (m.get "x").Nodup ∧
        (m.get "x").Pairwise fun a b => ∀ k, a.above? k ≠ some b ∧ b.above? k ≠ some a := by
  have hname : Pattern.Unnested "x" (Pattern.occurrencesIn contentsOrNodes.elements) := by decide
  obtain ⟨hnodup, hmatches⟩ :=
    bindings_in_document_order contentsOrNodes hname (n := listWithBlock.rootNode)
      built_listWithBlock
  refine ⟨built_listWithBlock, hname, ?_, hnodup, fun m hm => hmatches m (.inr hm)⟩
  rw [CheckedPattern.onChildren, Matcher.results_start]
  decide +kernel

end StructuralSearch
