import StructuralSearch.Proofs.Matching.Likeness
import StructuralSearch.Proofs.Tree.Shape
import StructuralSearch.Proofs.Tree.Ways

/-!
# The same tree elsewhere

Where the same tree stands twice, perhaps in two trees, a pattern has the same matches in both
places, and the nodes that it binds are at the same ways below. The comparison behind a
back-reference cannot tell the places apart either. An adapter can: it asks what a role expects,
which is no part of its name.
-/
namespace StructuralSearch

variable {ν : Type}

/-- The construct that a pattern asks for by itself. -/
def Pattern.construct? : Pattern → Option Construct
  | .adapter construct _ => some construct
  | _ => none

/-- Only an adapter asks for more than the same trees have in common. -/
theorem Pattern.passesOn_of_sameTree {v : TreeView ν} {roles : Role → Role → Prop}
    {same : ν → ν → Prop} (h : ∀ n n', same n n' → v.sameTree n n') {p : Pattern}
    (hp : p.construct? = none) : p.PassesOn roles same v.exactly v.exactly := by
  cases p with
  | any | capture | optional | repetition | choice => trivial
  | backreference name =>
    intro m m' n n' hm hn
    exact TreeView.sameTree_congr (h m m' hm) (h n n' hn)
  | literal kind text slots =>
    refine passesOn_literal (fun n n' hn => ?_) kind text slots
    obtain ⟨hkind, htext, -⟩ := TreeView.sameTree_iff.1 (h n n' hn)
    exact ⟨hkind.symm, TreeView.textIs_congr htext.symm⟩
  | adapter construct p => cases hp

namespace Tree.Node

/-- One way leads from the first node to the third, and from the second to the fourth. -/
def AtSameWay (a b n n' : Node) : Prop :=
  ∃ way, a.follow? way = some n ∧ b.follow? way = some n'

theorem AtSameWay.child {a b n n' : Node} (h : AtSameWay a b n n') {i : Nat}
    (hi : i < n.children.length) (hi' : i < n'.children.length) :
    AtSameWay a b n.children[i].node n'.children[i].node := by
  obtain ⟨way, hn, hn'⟩ := h
  refine ⟨way ++ [i], ?_, ?_⟩
  · rw [follow?_append_singleton, hn, Option.bind_some, List.getElem?_eq_getElem hi]
    rfl
  · rw [follow?_append_singleton, hn', Option.bind_some, List.getElem?_eq_getElem hi']
    rfl

/-- The same ways down from two nodes lead through the same trees. -/
theorem sideBySide (a b : Node) :
    SideBySide (fun r r' => r'.name = r.name)
      (fun n n' => AtSameWay a b n n' ∧ view.sameTree n n') view.exactly view.exactly where
  name _ _ hname := hname
  children := by
    rintro n n' ⟨hway, hsame⟩
    obtain ⟨-, -, hchildren⟩ := TreeView.sameTree_iff.1 hsame
    obtain ⟨hlength, hchildren⟩ := List.forall₂_iff_get.1 hchildren
    refine List.forall₂_iff_get.2 ⟨hlength, fun i hi hi' => ?_⟩
    obtain ⟨hrole, hnode⟩ := Bool.and_eq_true_iff.1 (hchildren i hi hi')
    exact ⟨(Role.beq_iff.1 hrole).symm, hway.child hi hi', hnode⟩

end Tree.Node

open StructuralSearch.Tree (Node)

/-- **The same tree has the same matches.** A pattern without adapters has as many matches with a
node as with any other node, of whatever tree, that is the same tree. They correspond in their
order: each binds the same names, each name to the same number of nodes, and these are at the same
ways below the two nodes. -/
theorem same_tree_same_matches (p : CheckedPattern)
    (hp : ∀ o ∈ Pattern.occurrencesIn p.elements, o.pattern.construct? = none) {a b : Node}
    (h : Node.view.sameTree a b) :
    List.Forall₂ (Match.Agree (Node.AtSameWay a b)) ((p.onNode a).results Node.view.exactly)
      ((p.onNode b).results Node.view.exactly) := by
  have hroot : Node.AtSameWay a b a b := ⟨[], rfl, rfl⟩
  have hmatches := (Node.sideBySide a b).results_onNode
    (fun o ho => Pattern.passesOn_of_sameTree (fun _ _ hn => hn.2) (hp o ho))
    (fun o ho => Pattern.passesOn_of_sameTree (fun _ _ hn => TreeView.sameTree_symm hn.2) (hp o ho))
    rfl ⟨hroot, h⟩
  exact hmatches.imp fun _ _ hm => hm.imp fun _ _ hn => hn.1

/-- A list that holds an item twice. -/
def Tree.itemTwice (expects : Option Construct) : Tree where
  entries := #[{ kind := "item", text := some "a", role := ⟨"child", expects⟩, parent := some ⟨2⟩ },
    { kind := "item", text := some "a", role := ⟨"child", expects⟩, parent := some ⟨2⟩ },
    { kind := "list", text := none, children := [⟨0⟩, ⟨1⟩] }]
  root := ⟨2⟩
  childrenFirst := childrenFirst_push (childrenFirst_push (childrenFirst_push childrenFirst_empty
    (by simp)) (by simp)) (by simp)
  root_lt := Nat.lt_add_one 2

/-- A list of an item and the same item again. -/
def itemAgain : CheckedPattern where
  elements := [.literal "list" none
    [(.child, .any (some "first")), (.child, .capture "again" (.backreference "first"))]]
  captures := ["first", "again"]
  checked := rfl

/-- What the roles expect makes no difference. -/
theorem itemAgain_in_both :
    let a := (Tree.itemTwice none).rootNode
    let b := (Tree.itemTwice (some .statement)).rootNode
    (∀ o ∈ Pattern.occurrencesIn itemAgain.elements, o.pattern.construct? = none) ∧
      Node.view.sameTree a b ∧
      (((itemAgain.onNode b).results Node.view.exactly).map fun m =>
        (m.get "first" ++ m.get "again").map (·.number.index)) = [[0, 1]] ∧
      List.Forall₂ (Match.Agree (Node.AtSameWay a b))
        ((itemAgain.onNode a).results Node.view.exactly)
        ((itemAgain.onNode b).results Node.view.exactly) := by
  have hplain : ∀ o ∈ Pattern.occurrencesIn itemAgain.elements, o.pattern.construct? = none := by
    decide
  have hsame : Node.view.sameTree (Tree.itemTwice none).rootNode
      (Tree.itemTwice (some .statement)).rootNode := by
    decide +kernel
  refine ⟨hplain, hsame, ?_, same_tree_same_matches itemAgain hplain hsame⟩
  rw [CheckedPattern.onNode, CheckedPattern.onSequence, Matcher.results_start,
    map_get_matchesOf Node.view.exactly itemAgain.elements _ fun bound =>
      (bound "first" ++ bound "again").map (·.number.index)]
  decide +kernel

end StructuralSearch
