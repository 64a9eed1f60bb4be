import StructuralSearch.Proofs.Matching.Likeness
import StructuralSearch.Proofs.Source.Order

/-!
# Comments and layout

A text can be laid out in another way, and comments can be put in anywhere between its parts. Its
tree then has other ranges, and more nodes that a match cannot see. Every node of the first tree has
a counterpart in the second one, and without back-references, which compare the texts that whole
nodes cover, a pattern has the same matches with both of them.
-/
namespace StructuralSearch

/-- The labels are the same up to their ranges. -/
structure NodeLabel.SameButRange (l l' : NodeLabel) : Prop where
  kind : l'.kind = l.kind
  named : l'.named = l.named
  extra : l'.extra = l.extra
  missing : l'.missing = l.missing
  isError : l'.isError = l.isError
  field : l'.field = l.field

namespace SourceNode

theorem ownText?_eq_ite (n : SourceNode) :
    n.ownText? = if n.below = [] then some n.coveredText else none := by
  obtain ⟨source, trail, label, children⟩ := n
  cases children with
  | nil => rfl
  | cons t ts => rfl

/-- A node lies below only one node, at one index. -/
theorem getElem?_below_inj {n m c : SourceNode} {i j : Nat} (hn : n.below[i]? = some c)
    (hm : m.below[j]? = some c) : n = m ∧ i = j := by
  rw [getElem?_below] at hn hm
  obtain ⟨t, -, rfl⟩ := Option.map_eq_some_iff.1 hn
  obtain ⟨t', -, hc⟩ := Option.map_eq_some_iff.1 hm
  obtain ⟨source, trail, tree⟩ := n
  obtain ⟨source', trail', tree'⟩ := m
  cases hc
  exact ⟨rfl, rfl⟩

/-- No node lies below what is within it. -/
theorem not_mem_below_of_within {root n : SourceNode} (hn : Within root n) : root ∉ n.below := by
  intro hroot
  obtain ⟨i, hi⟩ := List.mem_iff_getElem?.1 hroot
  obtain ⟨steps, hsteps⟩ := hn.exists_way
  have hlength := congrArg List.length (way_of_getElem?_below hi)
  rw [hsteps, List.length_append, List.length_append, List.length_singleton] at hlength
  omega

/-- The nodes below that are not inserted. -/
def kept (inserted : SourceNode → Bool) (n : SourceNode) : List SourceNode :=
  n.below.filter fun c => !inserted c

/-- The second node is the first one in another layout, with extra nodes inserted below. A leaf is
still a leaf, with the same text; and what is kept below the second node is what is below the first
one, laid out in this way too. -/
inductive LaidOut (inserted : SourceNode → Bool) : SourceNode → SourceNode → Prop
  | node {n n' : SourceNode} (label : n.label.SameButRange n'.label)
      (leaf : n.below = [] → n'.below = [] ∧ n'.coveredText = n.coveredText)
      (extra : ∀ c ∈ n'.below, inserted c → c.label.extra)
      (below : List.Forall₂ (LaidOut inserted) n.below (kept inserted n')) : LaidOut inserted n n'

/-- The roots are counterparts; and below two counterparts so are the nodes at the same index, when
those that are inserted do not count. -/
inductive Counterpart (inserted : SourceNode → Bool) (root root' : SourceNode) :
    SourceNode → SourceNode → Prop
  | root : Counterpart inserted root root' root root'
  | child {n n' c c' : SourceNode} {i : Nat} (above : Counterpart inserted root root' n n')
      (hc : n.below[i]? = some c) (hc' : (kept inserted n')[i]? = some c') :
      Counterpart inserted root root' c c'

variable {inserted : SourceNode → Bool}

namespace LaidOut

variable {n n' : SourceNode}

theorem label (h : LaidOut inserted n n') : n.label.SameButRange n'.label := by
  obtain ⟨hlabel, -, -, -⟩ := h
  exact hlabel

theorem forall₂_below (h : LaidOut inserted n n') :
    List.Forall₂ (LaidOut inserted) n.below (kept inserted n') := by
  obtain ⟨-, -, -, hbelow⟩ := h
  exact hbelow

theorem ownText?_eq (h : LaidOut inserted n n') : n'.ownText? = n.ownText? := by
  obtain ⟨-, hleaf, -, hbelow⟩ := h
  rw [ownText?_eq_ite, ownText?_eq_ite]
  by_cases hn : n.below = []
  · obtain ⟨hn', htext⟩ := hleaf hn
    rw [if_pos hn, if_pos hn', htext]
  · -- What is inserted comes on top of what the first node has below.
    have hn' : n'.below ≠ [] := by
      intro hn'
      rw [kept, hn', List.filter_nil, List.forall₂_nil_right_iff] at hbelow
      exact hn hbelow
    rw [if_neg hn, if_neg hn']

theorem leaf (hlabel : n.label.SameButRange n'.label) (hn : n.below = []) (hn' : n'.below = [])
    (htext : n'.coveredText = n.coveredText) : LaidOut inserted n n' := by
  refine .node hlabel (fun _ => ⟨hn', htext⟩) ?_ ?_
  · rw [hn']
    exact List.forall_mem_nil _
  · rw [hn, kept, hn']
    exact .nil

/-- Without the extra nodes what is kept is all that there is. -/
theorem filter_kept (h : LaidOut inserted n n') :
    ((kept inserted n').filter fun c => !c.label.extra) = n'.below.filter fun c => !c.label.extra := by
  obtain ⟨-, -, hextra, -⟩ := h
  rw [kept, List.filter_filter]
  refine List.filter_congr fun c hc => ?_
  cases hinserted : inserted c with
  | false => exact Bool.and_true _
  | true =>
    rw [hextra c hc hinserted]
    rfl

end LaidOut

namespace Counterpart

variable {root root' n n' : SourceNode}

theorem laidOut (hn : Counterpart inserted root root' n n') (h : LaidOut inserted root root') :
    LaidOut inserted n n' := by
  induction hn with
  | root => exact h
  | child _ hc hc' ih =>
    obtain ⟨hi, rfl⟩ := List.getElem?_eq_some_iff.1 hc
    obtain ⟨hi', rfl⟩ := List.getElem?_eq_some_iff.1 hc'
    exact ih.forall₂_below.get hi hi'

theorem forall₂_below (hn : Counterpart inserted root root' n n') (h : LaidOut inserted root root') :
    List.Forall₂ (Counterpart inserted root root') n.below (kept inserted n') := by
  refine List.forall₂_iff_get.2 ⟨(hn.laidOut h).forall₂_below.length_eq, fun i hi hi' => ?_⟩
  exact .child hn (List.getElem?_eq_getElem hi) (List.getElem?_eq_getElem hi')

/-- A counterpart belongs to a node of the first tree. -/
theorem within (hn : Counterpart inserted root root' n n') : Within root n := by
  induction hn with
  | root => exact .refl
  | child _ hc _ ih => exact .tail ih (List.mem_of_getElem? hc)

theorem unique {m' : SourceNode} (hn : Counterpart inserted root root' n n')
    (hm : Counterpart inserted root root' n m') : n' = m' := by
  -- The root is below no node of its tree, so both lead to the node by as many steps.
  induction hn generalizing m' with
  | root =>
    cases hm with
    | root => rfl
    | child above hc hc' => exact absurd (List.mem_of_getElem? hc) (not_mem_below_of_within above.within)
  | child above hc hc' ih =>
    cases hm with
    | root => exact absurd (List.mem_of_getElem? hc) (not_mem_below_of_within above.within)
    | child above' hd hd' =>
      obtain ⟨rfl, rfl⟩ := getElem?_below_inj hc hd
      rw [ih above'] at hc'
      exact Option.some.inj (hc'.symm.trans hd')

/-- Every node of the first tree has one counterpart. -/
theorem existsUnique (h : LaidOut inserted root root') (hn : Within root n) :
    ∃! n', Counterpart inserted root root' n n' := by
  have hsome : ∃ n', Counterpart inserted root root' n n' := by
    induction hn with
    | refl => exact ⟨root', .root⟩
    | tail _ hc ih =>
      obtain ⟨above', habove⟩ := ih
      obtain ⟨i, hi⟩ := List.mem_iff_getElem?.1 hc
      have hlt := (List.getElem?_eq_some_iff.1 hi).1
      rw [(habove.forall₂_below h).length_eq] at hlt
      exact ⟨_, .child habove hi (List.getElem?_eq_getElem hlt)⟩
  obtain ⟨n', hn'⟩ := hsome
  exact ⟨n', hn', fun m' hm' => hm'.unique hn'⟩

end Counterpart

/-- What is inserted is extra, so no match comes to see it. -/
theorem sideBySide {root root' : SourceNode} (h : LaidOut inserted root root') :
    SideBySide Eq (Counterpart inserted root root') target target where
  name := by
    rintro r _ rfl
    rfl
  children := by
    intro n n' hn
    have hlaid := hn.laidOut h
    show List.Forall₂ _ n.children n'.children
    rw [children, children, List.forall₂_map_left_iff, List.forall₂_map_right_iff,
      ← hlaid.filter_kept]
    have hfilter : List.Forall₂ (Counterpart inserted root root')
        (n.below.filter fun c => !c.label.extra)
        ((kept inserted n').filter fun c => !c.label.extra) := by
      refine List.rel_filter ?_ (hn.forall₂_below h)
      intro c c' hc
      dsimp only
      rw [(hc.laidOut h).label.extra]
    refine hfilter.imp fun c c' hc => ⟨?_, hc⟩
    have hlabel := (hc.laidOut h).label
    have hkind : n'.kind = n.kind := hlaid.label.kind
    show Source.roleBelow n.kind c.label.field c.label.named =
      Source.roleBelow n'.kind c'.label.field c'.label.named
    rw [hkind, hlabel.field, hlabel.named]

/-- Only a back-reference asks for more than counterparts have in common. -/
theorem passesOn {roles : Role → Role → Prop} {same : SourceNode → SourceNode → Prop}
    (hroles : ∀ r r', roles r r' → r' = r)
    (hsame : ∀ n n', same n n' → n'.kind = n.kind ∧ n'.ownText? = n.ownText?) {p : Pattern}
    (hp : p.reference? = none) : p.PassesOn roles same target target := by
  cases p with
  | any | capture | optional | repetition | choice => trivial
  | backreference name => cases hp
  | literal kind text slots =>
    refine Pattern.passesOn_literal (fun n n' hn => ?_) kind text slots
    exact ⟨(hsame n n' hn).1, TreeView.textIs_congr (hsame n n' hn).2⟩
  | adapter construct p =>
    intro r r' hr haccepts
    rw [hroles r r' hr]
    exact haccepts

end SourceNode

open SourceNode

/-- **Comments and layout do not matter.** Let a text be laid out anew, with extra nodes put in
below nodes that are no leaves. Then every node of its tree has one counterpart in the new tree. A
pattern without back-references has as many matches with the one as with the other. They correspond
in their order, and bind the same names to nodes that are counterparts. -/
theorem matches_in_other_layout {s s' : ParsedSource} {inserted : SourceNode → Bool}
    (h : LaidOut inserted s.root s'.root) (p : CheckedPattern)
    (hp : ∀ o ∈ Pattern.occurrencesIn p.elements, o.pattern.reference? = none) :
    (∀ n ∈ s.nodes, ∃! n', Counterpart inserted s.root s'.root n n') ∧
      ∀ n n', Counterpart inserted s.root s'.root n n' →
        List.Forall₂ (Match.Agree (Counterpart inserted s.root s'.root))
          ((p.onNode n).results target) ((p.onNode n').results target) := by
  constructor
  · intro n hn
    rw [ParsedSource.nodes_eq_preOrder, mem_preOrder_iff] at hn
    exact Counterpart.existsUnique h hn
  · intro n n' hn
    have hown : ∀ m m', Counterpart inserted s.root s'.root m m' →
        m'.kind = m.kind ∧ m'.ownText? = m.ownText? :=
      fun m m' hm => ⟨(hm.laidOut h).label.kind, (hm.laidOut h).ownText?_eq⟩
    refine (sideBySide h).results_onNode ?_ ?_ rfl hn
    · exact fun o ho => passesOn (fun r r' hr => hr.symm) hown (hp o ho)
    · refine fun o ho => passesOn (fun r r' hr => hr) (fun m' m hm => ?_) (hp o ho)
      exact ⟨(hown m m' hm).1.symm, (hown m m' hm).2.symm⟩

/-- A call of `f`, whose argument and closing bracket are at the given places, with comments between
them. -/
def callOfF (text : String) (argument close : Nat) (comments : List ParseTree) : ParsedSource where
  language := .typescript
  text := text
  tree :=
    let part kind named start stop field (children : List ParseTree) : ParseTree :=
      .node ⟨kind, named, false, false, false, ⟨start, stop⟩, field⟩ children
    part "call_expression" true 0 (close + 1) none
      [part "identifier" true 0 1 (some "function") [],
        part "arguments" true 1 (close + 1) (some "arguments")
          ([part "(" false 1 2 none [], part "identifier" true argument (argument + 1) none []] ++
            comments ++ [part ")" false close (close + 1) none []])]
  hasError := false

def bareCall : ParsedSource :=
  callOfF "f(a)" 2 3 []

def commentedCall : ParsedSource :=
  callOfF "f( a /* b */)" 3 12 [.node ⟨"comment", true, true, false, false, ⟨5, 12⟩, none⟩ []]

/-- A call of `f` with one argument, which is captured. -/
def argumentOfF : CheckedPattern where
  elements := [.literal "call_expression" none
    [(⟨"function", some .expression⟩, .leaf "identifier" "f"),
      (⟨"arguments", none⟩, .literal "arguments" none
        [(.child, .leaf "(" "("), (.child, .any (some "x")), (.child, .leaf ")" ")")])]]
  captures := ["x"]
  checked := rfl

/-- The comment after the argument is not seen. -/
theorem argumentOfF_in_both :
    let inserted : SourceNode → Bool := fun n => n.label.extra
    LaidOut inserted bareCall.root commentedCall.root ∧
      (∀ o ∈ Pattern.occurrencesIn argumentOfF.elements, o.pattern.reference? = none) ∧
      (((argumentOfF.onNode commentedCall.root).results target).map fun m =>
        m.captures.map fun c => (c.1, c.2.map (·.coveredText))) = [[("x", ["a"])]] ∧
      (∀ n ∈ bareCall.nodes, ∃! n', Counterpart inserted bareCall.root commentedCall.root n n') ∧
      List.Forall₂ (Match.Agree (Counterpart inserted bareCall.root commentedCall.root))
        ((argumentOfF.onNode bareCall.root).results target)
        ((argumentOfF.onNode commentedCall.root).results target) := by
  intro inserted
  have hsame : ∀ {kind named extra missing isError range range' field},
      NodeLabel.SameButRange ⟨kind, named, extra, missing, isError, range, field⟩
        ⟨kind, named, extra, missing, isError, range', field⟩ :=
    ⟨rfl, rfl, rfl, rfl, rfl, rfl⟩
  have hlaid : LaidOut inserted bareCall.root commentedCall.root := by
    refine .node hsame nofun (fun c hc h => h) (.cons ?_ (.cons ?_ .nil))
    · exact .leaf hsame rfl rfl (by decide +kernel)
    · refine .node hsame nofun (fun c hc h => h) (.cons ?_ (.cons ?_ (.cons ?_ .nil)))
      · exact .leaf hsame rfl rfl (by decide +kernel)
      · exact .leaf hsame rfl rfl (by decide +kernel)
      · exact .leaf hsame rfl rfl (by decide +kernel)
  have hplain : ∀ o ∈ Pattern.occurrencesIn argumentOfF.elements, o.pattern.reference? = none := by
    decide
  obtain ⟨hcounterparts, hmatches⟩ := matches_in_other_layout hlaid argumentOfF hplain
  refine ⟨hlaid, hplain, ?_, hcounterparts, hmatches _ _ .root⟩
  rw [CheckedPattern.onNode, CheckedPattern.onSequence, Matcher.results_start]
  decide +kernel

end StructuralSearch
