import StructuralSearch.Proofs.Tree.Shape

/-!
# Comparing trees

Two nodes are compared from the top down, and their children one by one as long as nothing differs.
The comparison comes to an end, as every child ranks below its parent; its answer is whether the
shapes of the two are equal. To be the same tree is therefore an equivalence, also between nodes of
different trees, which makes it all the same with which of the nodes bound to a name a
back-reference begins.
-/
namespace StructuralSearch

namespace TreeView

variable {ν : Type}

mutual

/-- What a comparison of two nodes answers. The rules know of no rank: they have an answer only
where the comparison comes to an end. -/
inductive Compares (v : TreeView ν) : ν → ν → Bool → Prop
  | unlike {a b : ν} (h : v.kind a ≠ v.kind b ∨ v.text a ≠ v.text b ∨
      (v.children a).length ≠ (v.children b).length) : Compares v a b false
  | alike {a b : ν} {answer : Bool} (hkind : v.kind a = v.kind b) (htext : v.text a = v.text b)
      (hlength : (v.children a).length = (v.children b).length)
      (hchildren : ComparesEach v (v.children a) (v.children b) answer) : Compares v a b answer

/-- What a comparison of as many children answers: no more are looked at after the first that
differ. -/
inductive ComparesEach (v : TreeView ν) : List (Child ν) → List (Child ν) → Bool → Prop
  | done : ComparesEach v [] [] true
  | otherRole {c d : Child ν} {cs ds : List (Child ν)} (hrole : (c.role == d.role) = false) :
      ComparesEach v (c :: cs) (d :: ds) false
  | otherTree {c d : Child ν} {cs ds : List (Child ν)} (hrole : c.role == d.role)
      (hnode : Compares v c.node d.node false) : ComparesEach v (c :: cs) (d :: ds) false
  | next {c d : Child ν} {cs ds : List (Child ν)} {answer : Bool} (hrole : c.role == d.role)
      (hnode : Compares v c.node d.node true) (hrest : ComparesEach v cs ds answer) :
      ComparesEach v (c :: cs) (d :: ds) answer

end

theorem exists_comparesEach {v : TreeView ν} {cs ds : List (Child ν)} (hlength : cs.length = ds.length)
    (h : ∀ c ∈ cs, ∀ b, ∃ answer, v.Compares c.node b answer) :
    ∃ answer, v.ComparesEach cs ds answer := by
  induction cs generalizing ds with
  | nil =>
    obtain rfl := List.eq_nil_of_length_eq_zero hlength.symm
    exact ⟨true, .done⟩
  | cons c cs ih =>
    cases ds with
    | nil => cases hlength
    | cons d ds =>
      obtain ⟨hc, hcs⟩ := List.forall_mem_cons.1 h
      cases hrole : c.role == d.role with
      | false => exact ⟨false, .otherRole hrole⟩
      | true =>
        obtain ⟨answer, hnode⟩ := hc d.node
        cases answer with
        | false => exact ⟨false, .otherTree hrole hnode⟩
        | true =>
          obtain ⟨answer, hrest⟩ := ih (Nat.succ.inj hlength) hcs
          exact ⟨answer, .next hrole hnode hrest⟩

/-- Every comparison comes to an end. -/
theorem exists_compares (v : TreeView ν) (a b : ν) : ∃ answer, v.Compares a b answer := by
  induction a using v.induct generalizing b with
  | node a ih =>
    by_cases hkind : v.kind a = v.kind b
    · by_cases htext : v.text a = v.text b
      · by_cases hlength : (v.children a).length = (v.children b).length
        · obtain ⟨answer, hchildren⟩ := exists_comparesEach hlength ih
          exact ⟨answer, .alike hkind htext hlength hchildren⟩
        · exact ⟨false, .unlike (.inr (.inr hlength))⟩
      · exact ⟨false, .unlike (.inr (.inl htext))⟩
    · exact ⟨false, .unlike (.inl hkind)⟩

mutual

theorem Compares.answer_iff {v : TreeView ν} {a b : ν} {answer : Bool} :
    v.Compares a b answer → (answer ↔ v.shape a = v.shape b)
  | .unlike h => by
    rw [shape_eq, shape_eq, Shape.node.injEq]
    refine iff_of_false Bool.false_ne_true ?_
    rintro ⟨hkind, htext, hchildren⟩
    have hlength := congrArg List.length hchildren
    rw [List.length_map, List.length_map] at hlength
    exact h.elim (· hkind) (·.elim (· htext) (· hlength))
  | .alike hkind htext _ hchildren => by
    rw [shape_eq, shape_eq, Shape.node.injEq]
    exact hchildren.answer_iff.trans ((and_iff_right hkind).trans (and_iff_right htext)).symm

theorem ComparesEach.answer_iff {v : TreeView ν} {cs ds : List (Child ν)} {answer : Bool} :
    v.ComparesEach cs ds answer →
      (answer ↔ (cs.map fun c => (c.role.name, v.shape c.node)) =
        ds.map fun d => (d.role.name, v.shape d.node))
  | .done => iff_of_true rfl rfl
  | .otherRole hrole => by
    rw [List.map_cons, List.map_cons, List.cons.injEq, Prod.mk.injEq]
    refine iff_of_false Bool.false_ne_true fun h => ?_
    rw [Role.beq_iff.2 h.1.1] at hrole
    cases hrole
  | .otherTree _ hnode => by
    rw [List.map_cons, List.map_cons, List.cons.injEq, Prod.mk.injEq]
    exact iff_of_false Bool.false_ne_true fun h => Bool.false_ne_true (hnode.answer_iff.2 h.1.2)
  | .next hrole hnode hrest => by
    rw [List.map_cons, List.map_cons, List.cons.injEq, Prod.mk.injEq]
    exact hrest.answer_iff.trans
      (and_iff_right ⟨Role.beq_iff.1 hrole, hnode.answer_iff.1 rfl⟩).symm

end

/-- There is one answer to a comparison. -/
theorem compares_iff {v : TreeView ν} {a b : ν} {answer : Bool} :
    v.Compares a b answer ↔ answer = v.sameTree a b := by
  have heq : ∀ {answer}, v.Compares a b answer → answer = v.sameTree a b := fun h =>
    Bool.eq_iff_iff.2 (h.answer_iff.trans sameTree_iff_shape_eq.symm)
  refine ⟨heq, ?_⟩
  rintro rfl
  obtain ⟨answer, h⟩ := v.exists_compares a b
  rwa [← heq h]

theorem sameTree_equivalence (v : TreeView ν) : Equivalence fun a b => v.sameTree a b = true where
  refl _ := sameTree_iff_shape_eq.2 rfl
  symm h := sameTree_symm h
  trans hab hbc :=
    sameTree_iff_shape_eq.2 ((sameTree_iff_shape_eq.1 hab).trans (sameTree_iff_shape_eq.1 hbc))

end TreeView

namespace Tree

/-- **The same tree is the same shape.** A comparison of any two nodes, of one tree or of two, ends
with one answer: whether the kinds, the texts, and the names of the roles of the children are the
same all the way down. So to be the same tree is an equivalence. -/
theorem comparison_is_equality_of_shapes :
    (∀ (a b : Node) (answer : Bool),
      Node.view.Compares a b answer ↔ answer = Node.view.sameTree a b) ∧
    (∀ a b : Node, Node.view.sameTree a b ↔ Node.view.shape a = Node.view.shape b) ∧
    Equivalence fun a b : Node => Node.view.sameTree a b = true := by
  refine ⟨?_, ?_, Node.view.sameTree_equivalence⟩
  · intro a b answer
    exact TreeView.compares_iff
  · intro a b
    exact TreeView.sameTree_iff_shape_eq

end Tree
end StructuralSearch
