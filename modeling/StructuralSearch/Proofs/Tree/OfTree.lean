import Mathlib.Data.List.Forall2
import StructuralSearch.Proofs.Matching.Refinement
import StructuralSearch.Proofs.Pattern.Checking
import StructuralSearch.Proofs.Tree.Built

/-!
# Patterns of trees

The pattern that describes a tree node by node has at most one match with a node, which binds
nothing. It compares kinds, and children one by one in their roles, as `sameTree` does. But where
the tree has no text it asks for none, and where a child of the tree has the role of a node by
itself any role will do. `admits` is the comparison that results. Between built trees it is that of
`sameTree` when every childless node of the first has a text and no child there has that role.
-/
namespace StructuralSearch

variable {ν : Type}

namespace TreeView

/-- Induction on a tree: what holds of a node when it holds of its children. -/
theorem induct (v : TreeView ν) {motive : ν → Prop}
    (node : ∀ n, (∀ c ∈ v.children n, motive c.node) → motive n) (n : ν) : motive n := by
  induction hrank : v.rank n using Nat.strongRecOn generalizing n with
  | ind r ih =>
    refine node n fun c hc => ih (v.rank c.node) ?_ c.node rfl
    rw [← hrank]
    exact v.rank_lt n c hc

/-- The second node fits the pattern of the first: the same kind, the text of the first if it has
one, and children that fit one by one, in the roles that the children of the first have or, for the
role of a node by itself, in any. -/
def admits (v : TreeView ν) (a b : ν) : Bool :=
  v.kind a == v.kind b && (v.text a).all (v.textIs b) &&
    (v.children a).length == (v.children b).length &&
    ((v.children a).attach.zip (v.children b)).all fun p =>
      (p.1.1.role.isRoot || p.2.role == p.1.1.role) && v.admits p.1.1.node p.2.node
termination_by v.rank a
decreasing_by exact v.rank_lt a p.1.1 p.1.2

/-- A test of two lists one by one, the first of them attached to itself. -/
theorem all_zip_attach_iff {α β : Type} (test : α → β → Bool) {as : List α} {bs : List β} :
    (as.length == bs.length && (as.attach.zip bs).all fun p => test p.1.1 p.2) = true ↔
      List.Forall₂ (fun a b => test a b) as bs := by
  have hmap : as.zip bs = (as.attach.zip bs).map (Prod.map Subtype.val id) := by
    rw [← List.zip_map_left, List.attach_map_subtype_val]
  rw [Bool.and_eq_true, beq_iff_eq, List.forall₂_iff_zip, List.all_eq_true]
  refine and_congr_right fun _ => ⟨?_, ?_⟩
  · intro h a b hab
    rw [hmap] at hab
    obtain ⟨p, hp, hpab⟩ := List.mem_map.1 hab
    cases hpab
    exact h p hp
  · intro h p hp
    exact h (hmap ▸ List.mem_map_of_mem hp)

/-- The children are the same, and in the same role. -/
def sameChild (v : TreeView ν) (c d : Child ν) : Bool :=
  c.role == d.role && v.sameTree c.node d.node

def admitsChild (v : TreeView ν) (c d : Child ν) : Bool :=
  (c.role.isRoot || d.role == c.role) && v.admits c.node d.node

theorem sameTree_iff {v : TreeView ν} {a b : ν} :
    v.sameTree a b ↔ v.kind a = v.kind b ∧ v.text a = v.text b ∧
      List.Forall₂ (fun c d => v.sameChild c d) (v.children a) (v.children b) := by
  rw [sameTree, Bool.and_assoc, Bool.and_eq_true, Bool.and_eq_true, beq_iff_eq, beq_iff_eq, and_assoc]
  exact and_congr_right fun _ => and_congr_right fun _ => all_zip_attach_iff v.sameChild

theorem admits_iff {v : TreeView ν} {a b : ν} :
    v.admits a b ↔ v.kind a = v.kind b ∧ (v.text a).all (v.textIs b) ∧
      List.Forall₂ (fun c d => v.admitsChild c d) (v.children a) (v.children b) := by
  rw [admits, Bool.and_assoc, Bool.and_eq_true, Bool.and_eq_true, beq_iff_eq, and_assoc]
  exact and_congr_right fun _ => and_congr_right fun _ => all_zip_attach_iff v.admitsChild

/-- The same tree fits the pattern. -/
theorem admits_of_sameTree {v : TreeView ν} {a b : ν} (h : v.sameTree a b) : v.admits a b := by
  induction a using v.induct generalizing b with
  | node a ih =>
    obtain ⟨hkind, htext, hchildren⟩ := sameTree_iff.1 h
    refine admits_iff.2 ⟨hkind, ?_, ?_⟩
    · cases hown : v.text a with
      | none => rfl
      | some text => exact beq_iff_eq.2 (htext.symm.trans hown)
    · refine ((List.forall₂_and_left _ _).2 ⟨ih, hchildren⟩).imp fun c d hcd => ?_
      obtain ⟨hadmits, hsame⟩ := hcd
      obtain ⟨hrole, hnode⟩ := Bool.and_eq_true_iff.1 hsame
      have hfits : (d.role == c.role) = true := Role.beq_iff.2 (Role.beq_iff.1 hrole).symm
      rw [admitsChild, hfits, hadmits hnode, Bool.or_true, Bool.and_true]

/-- Every node of the tree without children has a text, and no child has the role of a node by
itself. -/
inductive Explicit (v : TreeView ν) : ν → Prop
  | node {n : ν} (text : v.children n = [] → v.text n ≠ none)
      (roles : ∀ c ∈ v.children n, c.role.isRoot = false)
      (below : ∀ c ∈ v.children n, Explicit v c.node) : Explicit v n

end TreeView

namespace Pattern

theorem ofTree_eq (v : TreeView ν) (n : ν) :
    ofTree v n =
      .literal (v.kind n) (v.text n) ((v.children n).map fun c => (c.role, ofTree v c.node)) := by
  rw [ofTree]
  exact congrArg _ (List.attach_map_val (f := fun c : Child ν => (c.role, ofTree v c.node)))

theorem checkSlots_ofTree {v : TreeView ν} {cs : List (Child ν)} {known : List String}
    (hcs : ∀ c ∈ cs, ∀ slot, check slot (ofTree v c.node) known = .ok known) :
    checkSlots (cs.map fun c => (c.role, ofTree v c.node)) known = .ok known := by
  induction cs with
  | nil => rfl
  | cons c rest ih =>
    obtain ⟨hc, hrest⟩ := List.forall_mem_cons.1 hcs
    rw [List.map_cons, checkSlots, hc]
    exact ih hrest

/-- The pattern of a tree is fit for matching and captures nothing. -/
theorem check_ofTree (v : TreeView ν) (n : ν) (slot : Option Role) (known : List String) :
    check slot (ofTree v n) known = .ok known := by
  induction n using v.induct generalizing slot with
  | node n ih =>
    rw [ofTree_eq, check]
    exact checkSlots_ofTree ih

/-- The pattern of the tree takes the one node at its position, if it fits, and captures nothing. -/
def TakesFitting (v : TreeView ν) (n : ν) : Prop :=
  ∀ (slot : Role) (siblings : Array (Child ν)) (i : Nat) (log : Log ν),
    outcomes v.exactly (ofTree v n) slot siblings i log =
      ((fittingAt? siblings i slot).toList.filter fun d => v.admits n d.node).map
        fun _ => ⟨i + 1, log⟩

theorem filter_fittingAt? {v : TreeView ν} {c d : Child ν} {siblings : Array (Child ν)} {i : Nat}
    (hget : siblings[i]? = some d) :
    ((fittingAt? siblings i c.role).toList.filter fun d => v.admits c.node d.node) =
      if v.admitsChild c d then [d] else [] := by
  rw [fittingAt?, hget, Option.filter_some, TreeView.admitsChild]
  cases c.role.isRoot || d.role == c.role with
  | false => rfl
  | true =>
    rw [if_pos rfl, Bool.true_and, Option.toList_some, List.filter_cons]
    rfl

/-- The slots of the children take all of the siblings that are left, one by one, or fail. -/
theorem filter_outcomesInTurn_ofTree {v : TreeView ν} {cs : List (Child ν)}
    (hcs : ∀ c ∈ cs, TakesFitting v c.node) (siblings : Array (Child ν)) (i : Nat) (log : Log ν)
    (hi : i ≤ siblings.size) :
    ((outcomesInTurn v.exactly (cs.map fun c => (c.role, ofTree v c.node)) siblings i log).filter
        fun o => o.index == siblings.size) =
      if List.Forall₂ (fun c d => v.admitsChild c d) cs (siblings.toList.drop i)
        then [⟨siblings.size, log⟩] else [] := by
  induction cs generalizing i with
  | nil =>
    rw [List.map_nil, outcomesInTurn]
    by_cases hend : i = siblings.size
    · simp [hend]
    · have hlt : i < siblings.size := by omega
      simp [hend, hlt]
  | cons c rest ih =>
    obtain ⟨hc, hrest⟩ := List.forall_mem_cons.1 hcs
    rw [List.map_cons, outcomesInTurn, hc, List.filter_flatMap]
    cases hdrop : siblings.toList.drop i with
    | nil =>
      have hnone : siblings[i]? = none := by
        rw [← Array.getElem?_toList, ← List.head?_drop, hdrop, List.head?_nil]
      simp [fittingAt?, hnone]
    | cons d later =>
      obtain ⟨hget, hlater⟩ := getElem?_and_drop_of_drop_eq_cons hdrop
      have hlt : i < siblings.size := (Array.getElem?_eq_some_iff.1 hget).1
      have hih := ih hrest (i + 1) hlt
      rw [hlater] at hih
      rw [filter_fittingAt? hget]
      by_cases hfits : v.admitsChild c d
      · simp [hfits, hih]
      · simp [hfits]

/-- The slots of the children take all children of another node, or fail. -/
theorem filter_outcomesInTurn_children {v : TreeView ν} {n : ν}
    (hchildren : ∀ c ∈ v.children n, TakesFitting v c.node) (m : ν) (log : Log ν) :
    ((outcomesInTurn v.exactly ((v.children n).map fun c => (c.role, ofTree v c.node))
        (v.children m).toArray 0 log).filter fun o => o.index == (v.children m).length) =
      if List.Forall₂ (fun c d => v.admitsChild c d) (v.children n) (v.children m)
        then [⟨(v.children m).length, log⟩] else [] :=
  filter_outcomesInTurn_ofTree hchildren (v.children m).toArray 0 log (Nat.zero_le _)

theorem takesFitting_ofTree (v : TreeView ν) (n : ν) : TakesFitting v n := by
  induction n using v.induct with
  | node n ih =>
    intro slot siblings i log
    rw [ofTree_eq, outcomes]
    cases fittingAt? siblings i slot with
    | none => rfl
    | some d =>
      have hbelow := filter_outcomesInTurn_children ih d.node log
      have hadmits : v.admits n d.node = true ↔
          (v.exactly.kind d.node == v.kind n && (v.text n).all (v.exactly.hasText d.node)) = true ∧
            List.Forall₂ (fun c e => v.admitsChild c e) (v.children n) (v.children d.node) := by
        rw [TreeView.admits_iff, Bool.and_eq_true, beq_iff_eq, eq_comm, and_assoc]
        rfl
      rw [Option.toList_some, List.filter_cons, List.filter_cons, List.filter_nil, List.filter_nil]
      by_cases hfits : v.admits n d.node
      · obtain ⟨hown, hchildren⟩ := hadmits.1 hfits
        rw [if_pos hchildren] at hbelow
        rw [if_pos hown, if_pos hfits, List.flatMap_singleton]
        exact congrArg (List.map _) hbelow
      · rw [if_neg hfits]
        split
        · rename_i hown
          rw [if_neg fun hchildren => hfits (hadmits.2 ⟨hown, hchildren⟩)] at hbelow
          rw [List.flatMap_singleton]
          exact congrArg (List.map _) hbelow
        · rfl

end Pattern

theorem Match.ofLog_empty : ofLog (.empty : Log ν) = ⟨[]⟩ := by
  have hnames : (.empty : Log ν).names = [] := by simp [Log.names]
  rw [ofLog, hnames, List.map_nil]

/-- The pattern of a tree has the one match that binds nothing with what fits it, and no other. -/
theorem CheckedPattern.results_ofTree {v : TreeView ν} {p : CheckedPattern} {n : ν}
    (hp : p.elements = [.ofTree v n]) (m : ν) :
    (p.onNode m).results v.exactly = if v.admits n m then [⟨[]⟩] else [] := by
  have hget : fittingAt? #[(⟨.root, m⟩ : Child ν)] 0 .root = some ⟨.root, m⟩ := rfl
  rw [onNode, onSequence, Matcher.results_start, hp]
  simp only [matchesOf, inNoSlot, List.map_cons, List.map_nil, Pattern.outcomesInTurn,
    Pattern.takesFitting_ofTree v n Role.root, hget, Option.toList_some, List.filter_cons,
    List.filter_nil]
  by_cases hfits : v.admits n m
  · rw [if_pos hfits, if_pos hfits, ← Match.ofLog_empty]
    rfl
  · rw [if_neg hfits, if_neg hfits]
    rfl

namespace Tree

theorem Node.built_of_mem_children {n : Node} (h : n.tree.Built) {c : Child Node}
    (hc : c ∈ n.children) : c.node.tree.Built := by
  obtain ⟨i, -, hi⟩ := List.mem_filterMap.1 hc
  obtain ⟨m, hm, rfl⟩ := Option.map_eq_some_iff.1 hi
  rw [(eq_of_get? hm).2]
  exact h

/-- What fits the pattern of an explicit tree is the same tree. -/
theorem Node.sameTree_of_admits {n m : Node} (hn : Node.view.Explicit n) (hm : m.tree.Built)
    (h : Node.view.admits n m) : Node.view.sameTree n m := by
  induction hn generalizing m with
  | @node n text roles below ih =>
    obtain ⟨hkind, htext, hchildren⟩ := TreeView.admits_iff.1 h
    obtain ⟨hlength, hone⟩ := List.forall₂_iff_zip.1 hchildren
    refine TreeView.sameTree_iff.2 ⟨hkind, ?_, List.forall₂_iff_zip.2 ⟨hlength, ?_⟩⟩
    · cases hown : Node.view.text n with
      | some own =>
        rw [hown] at htext
        exact (beq_iff_eq.1 htext).symm
      | none =>
        -- No leaf, so the other is none either.
        have hinner : m.children ≠ [] := by
          intro hleaf
          refine text (List.length_eq_zero_iff.1 ?_) hown
          exact hlength.trans (List.length_eq_zero_iff.2 hleaf)
        exact (Node.text_eq_none hm hinner).symm
    · intro c d hcd
      obtain ⟨hc, hd⟩ := List.of_mem_zip hcd
      obtain ⟨hrole, hnode⟩ := Bool.and_eq_true_iff.1 (hone hcd)
      rw [roles c hc, Bool.false_or] at hrole
      have hrole' : (c.role == d.role) = true := Role.beq_iff.2 (Role.beq_iff.1 hrole).symm
      have hnode' := ih c hc (Node.built_of_mem_children hm hd) hnode
      rw [TreeView.sameChild, hrole', hnode', Bool.and_self]

/-- **The pattern of a tree.** The pattern that describes a tree node by node is fit for matching.
It has one match with a node, which binds nothing, when the node fits, as the same tree does; and no
match with any other node. What fits an explicit tree is the same tree. -/
theorem matches_ofTree (n m : Node) (hm : m.tree.Built) :
    ∃ p, CheckedPattern.ofPattern (.ofTree Node.view n) = .ok p ∧
      (p.onNode m).results Node.view.exactly = (if Node.view.admits n m then [⟨[]⟩] else []) ∧
      (Node.view.sameTree n m → (p.onNode m).results Node.view.exactly = [⟨[]⟩]) ∧
      (Node.view.Explicit n → ¬Node.view.sameTree n m →
        (p.onNode m).results Node.view.exactly = []) := by
  have hchecked : Pattern.checkSequence [.ofTree Node.view n] [] = .ok [] := by
    rw [Pattern.checkSequence, Pattern.check_ofTree]
    rfl
  have hresults := CheckedPattern.results_ofTree (p := ⟨_, _, hchecked⟩) rfl m
  refine ⟨⟨_, _, hchecked⟩, CheckedPattern.ofPattern_eq_ok_iff.2 rfl, hresults, ?_, ?_⟩
  · intro hsame
    rw [hresults, if_pos (TreeView.admits_of_sameTree hsame)]
  · intro hexplicit hother
    rw [hresults, if_neg fun hfits => hother (Node.sameTree_of_admits hexplicit hm hfits)]

/-- A list of one item. -/
def listOf (role : Role) (text : String) : Tree where
  entries := #[{ kind := "item", text := some text, role, parent := some ⟨1⟩ },
    { kind := "list", text := none, children := [⟨0⟩] }]
  root := ⟨1⟩
  childrenFirst := childrenFirst_push (childrenFirst_push childrenFirst_empty (by simp)) (by simp)
  root_lt := Nat.one_lt_two

theorem built_listOf (role : Role) (text : String) : (listOf role text).Built := by
  have hadd : (Builder.empty.addLeaf "item" text).2.addNode "list" [(role, ⟨0⟩)] =
      .ok (⟨1⟩, _) := rfl
  exact ⟨_, ⟨1⟩, .node (.leaf "item" text .empty) hadd, rfl⟩

/-- The item of the list. -/
def itemOf (role : Role) (text : String) : Node where
  tree := listOf role text
  number := ⟨0⟩
  entry := { kind := "item", text := some text, role, parent := some ⟨1⟩ }
  entry_eq := rfl

theorem children_listOf (role : Role) (text : String) :
    Node.view.children (listOf role text).rootNode = [⟨role, itemOf role text⟩] := rfl

theorem explicit_listOf {role : Role} (h : role.isRoot = false) (text : String) :
    Node.view.Explicit (listOf role text).rootNode := by
  have hitem : Node.view.Explicit (itemOf role text) := by
    refine .node (fun _ => Option.some_ne_none _) ?_ ?_ <;> exact List.forall_mem_nil _
  refine .node (fun hleaf => absurd hleaf (List.cons_ne_nil _ _)) ?_ ?_
  · rw [children_listOf]
    exact List.forall_mem_singleton.2 h
  · rw [children_listOf]
    exact List.forall_mem_singleton.2 hitem

theorem not_sameTree_listOf {role role' : Role} {text text' : String} (h : text ≠ text') :
    ¬Node.view.sameTree (listOf role text).rootNode (listOf role' text').rootNode := by
  intro hsame
  obtain ⟨-, -, hchildren⟩ := TreeView.sameTree_iff.1 hsame
  rw [children_listOf, children_listOf, List.forall₂_cons] at hchildren
  obtain ⟨-, hitem⟩ := Bool.and_eq_true_iff.1 hchildren.1
  obtain ⟨-, htext, -⟩ := TreeView.sameTree_iff.1 hitem
  exact h (Option.some.inj htext)

/-- A list of one item matches no list of another item. -/
theorem listOf_matches_no_other :
    (listOf .child "b").Built ∧
      ∃ p, CheckedPattern.ofPattern (.ofTree Node.view (listOf .child "a").rootNode) = .ok p ∧
        (p.onNode (listOf .child "b").rootNode).results Node.view.exactly = [] := by
  have hbuilt := built_listOf .child "b"
  obtain ⟨p, hp, -, -, hother⟩ :=
    matches_ofTree (listOf .child "a").rootNode (listOf .child "b").rootNode hbuilt
  exact ⟨hbuilt, p, hp, hother (explicit_listOf rfl "a") (not_sameTree_listOf (by decide))⟩

/-- A node without children. -/
def single (kind : String) (text : Option String) : Tree where
  entries := #[{ kind, text }]
  root := ⟨0⟩
  childrenFirst := childrenFirst_push childrenFirst_empty (by simp)
  root_lt := Nat.zero_lt_one

theorem built_single (kind : String) (text : Option String) : (single kind text).Built := by
  cases text with
  | none =>
    have hadd : Builder.empty.addNode kind [] = .ok (⟨0⟩, _) := rfl
    exact ⟨_, ⟨0⟩, .node .empty hadd, rfl⟩
  | some text => exact ⟨_, ⟨0⟩, .leaf kind text .empty, rfl⟩

/-- A pattern can match another tree: the pattern of a node without children and without a text
matches a leaf of its kind. -/
theorem ofTree_matches_other :
    ¬∀ n m : Node, n.tree.Built → m.tree.Built →
      ∃ p, CheckedPattern.ofPattern (.ofTree Node.view n) = .ok p ∧
        (p.onNode m).results Node.view.exactly =
          if Node.view.sameTree n m then [⟨[]⟩] else [] := by
  intro h
  obtain ⟨p, hp, hresults⟩ := h (single "block" none).rootNode (single "block" (some "x")).rootNode
    (built_single "block" none) (built_single "block" (some "x"))
  have hfits : Node.view.admits (single "block" none).rootNode
      (single "block" (some "x")).rootNode :=
    TreeView.admits_iff.2 ⟨rfl, rfl, .nil⟩
  have hother : ¬Node.view.sameTree (single "block" none).rootNode
      (single "block" (some "x")).rootNode := by
    intro hsame
    obtain ⟨-, htext, -⟩ := TreeView.sameTree_iff.1 hsame
    cases htext
  rw [CheckedPattern.results_ofTree (CheckedPattern.ofPattern_eq_ok_iff.1 hp), if_pos hfits,
    if_neg hother] at hresults
  cases hresults

end Tree
end StructuralSearch
