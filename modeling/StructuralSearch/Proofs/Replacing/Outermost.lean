import StructuralSearch.Proofs.Search.Exact
import StructuralSearch.Proofs.Source.Nesting

/-!
# The matches that are kept

A rule tells whether a match lies within an earlier one by the offset where the last match kept
ends, and never looks at the tree. In a tree whose ranges nest this is right for matches that hold
some text. A match without any text that stands at the very end of a match above it does not begin
before that end, and is kept along with it.
-/
namespace StructuralSearch

namespace Template

theorem map_node_filterMap_findingAt?_sublist (t : Template) (nodes : List SourceNode) :
    ((nodes.filterMap t.findingAt?).map (·.node)).Sublist nodes := by
  induction nodes with
  | nil => exact .refl []
  | cons n rest ih =>
    rw [List.filterMap_cons]
    split
    · exact ih.cons n
    · rename_i found hfound
      obtain ⟨_, -, rfl⟩ := Option.map_eq_some_iff.1 hfound
      exact ih.cons_cons n

theorem candidates_sublist (t : Template) (s : ParsedSource) :
    (t.candidates s).Sublist s.root.preOrder := by
  rw [candidates, ParsedSource.nodes_eq_preOrder]
  split
  · exact List.filter_sublist
  · exact List.nil_sublist _

theorem map_node_findings_sublist (t : Template) (s : ParsedSource) (limit : Nat) :
    ((t.findings s limit).map (·.node)).Sublist s.root.preOrder := by
  rw [findings, findingsAmong_eq_take]
  exact ((List.take_sublist limit _).map _).trans
    ((t.map_node_filterMap_findingAt?_sublist _).trans (t.candidates_sublist s))

end Template

namespace ReplacementRule

/-! ## Telling by the last offset -/

/-- The matches come in pre-order, in a tree whose ranges nest. -/
structure Laid (matched : List Finding) : Prop where
  forward : ∀ m ∈ matched, m.range.start ≤ m.range.stop
  precedes : matched.Pairwise fun a m => a.node.Precedes m.node

theorem Laid.stop_le {matched : List Finding} {a m : Finding} (h : Laid matched)
    (ha : a ∈ matched) (hm : m ∈ matched) (habove : a.node.IsAbove m.node) :
    m.range.stop ≤ a.range.stop := by
  have hpairs := List.pairwise_iff_getElem.1 h.precedes
  obtain ⟨i, hi, rfl⟩ := List.mem_iff_getElem.1 ha
  obtain ⟨j, hj, rfl⟩ := List.mem_iff_getElem.1 hm
  rcases Nat.lt_trichotomy i j with hij | rfl | hij
  · exact (hpairs i j hi hj hij).encloses habove
  · exact Nat.le_refl _
  · exact absurd habove (hpairs j i hj hi hij).not_above

/-- The match begins within the other one, which is above it. -/
def LiesIn (m a : Finding) : Prop :=
  a.node.IsAbove m.node ∧ m.range.start < a.range.stop

instance (m a : Finding) : Decidable (LiesIn m a) :=
  inferInstanceAs (Decidable (_ ∧ _))

/-- After the matches `done`, the offset `covered` tells of each later one whether it lies in one of
these. -/
def Covers (done : List Finding) (covered : Nat) (rest : List Finding) : Prop :=
  ∀ m ∈ rest, m.range.start < covered ↔ ∃ a ∈ done, LiesIn m a

variable {done rest : List Finding} {found : Finding} {covered : Nat}

/-- What lies in a match that is dropped lies in the one that this match was dropped for. -/
theorem Covers.drop (h : Covers done covered (found :: rest)) (hlaid : Laid (done ++ found :: rest))
    (hdrop : found.range.start < covered) : Covers (done ++ [found]) covered rest := by
  obtain ⟨a, ha, hlies⟩ := (h found List.mem_cons_self).1 hdrop
  have hstop : found.range.stop ≤ a.range.stop :=
    ((List.pairwise_append.1 hlaid.precedes).2.2 a ha found List.mem_cons_self).encloses hlies.1
  intro m hm
  rw [h m (List.mem_cons_of_mem _ hm)]
  constructor
  · rintro ⟨b, hb, hin⟩
    exact ⟨b, List.mem_append_left _ hb, hin⟩
  · rintro ⟨b, hb, hin⟩
    rcases List.mem_append.1 hb with hb | hb
    · exact ⟨b, hb, hin⟩
    · obtain rfl := List.mem_singleton.1 hb
      exact ⟨a, ha, hlies.1.trans hin.1, Nat.lt_of_lt_of_le hin.2 hstop⟩

/-- A match that is kept begins after all before it that do not enclose it, so from its end on these
cover nothing. -/
theorem Covers.keep (h : Covers done covered (found :: rest)) (hlaid : Laid (done ++ found :: rest))
    (hkeep : ¬found.range.start < covered) :
    Covers (done ++ [found]) found.range.stop rest := by
  obtain ⟨-, hlater, hcross⟩ := List.pairwise_append.1 hlaid.precedes
  have hforward : found.range.start ≤ found.range.stop :=
    hlaid.forward found (List.mem_append_right _ List.mem_cons_self)
  have hbefore : ∀ a ∈ done, a.range.stop ≤ found.range.start := by
    intro a ha
    by_cases habove : a.node.IsAbove found.node
    · refine Nat.le_of_not_lt fun hlt => hkeep ?_
      exact (h found List.mem_cons_self).2 ⟨a, ha, habove, hlt⟩
    · exact (hcross a ha found List.mem_cons_self).ends habove
  intro m hm
  constructor
  · intro hlt
    refine ⟨found, List.mem_append_right _ (List.mem_singleton_self _), ?_, hlt⟩
    by_contra habove
    have hends := ((List.pairwise_cons.1 hlater).1 m hm).ends habove
    exact Nat.not_lt_of_le hends hlt
  · rintro ⟨a, ha, hin⟩
    rcases List.mem_append.1 ha with ha | ha
    · have hstop := hbefore a ha
      have hlt := hin.2
      omega
    · obtain rfl := List.mem_singleton.1 ha
      exact hin.2

/-- A match lies in none that comes after it. -/
theorem Covers.head_iff (h : Covers done covered (found :: rest))
    (hlaid : Laid (done ++ found :: rest)) :
    found.range.start < covered ↔ ∃ a ∈ done ++ found :: rest, LiesIn found a := by
  rw [h found List.mem_cons_self]
  constructor
  · rintro ⟨a, ha, hlies⟩
    exact ⟨a, List.mem_append_left _ ha, hlies⟩
  · rintro ⟨a, ha, hlies⟩
    rcases List.mem_append.1 ha with ha | ha
    · exact ⟨a, ha, hlies⟩
    · rcases List.mem_cons.1 ha with rfl | ha
      · exact absurd rfl hlies.1.2
      · have hlater := (List.pairwise_append.1 hlaid.precedes).2.1
        exact absurd hlies.1 ((List.pairwise_cons.1 hlater).1 a ha).not_above

theorem outermostFrom_eq_filter (h : Covers done covered rest) (hlaid : Laid (done ++ rest)) :
    outermostFrom covered rest = rest.filter fun m => ¬∃ a ∈ done ++ rest, LiesIn m a := by
  induction rest generalizing done covered with
  | nil => rfl
  | cons found rest ih =>
    have hassoc : done ++ found :: rest = done ++ [found] ++ rest := by
      rw [List.append_assoc, List.singleton_append]
    have hhead := h.head_iff hlaid
    by_cases hlt : found.range.start < covered
    · have hin := hhead.1 hlt
      rw [outermostFrom, if_pos hlt, List.filter_cons_of_neg (by simpa using hin), hassoc]
      exact ih (h.drop hlaid hlt) (hassoc ▸ hlaid)
    · have hout := mt hhead.2 hlt
      rw [outermostFrom, if_neg hlt, List.filter_cons_of_pos (by simpa using hout), hassoc]
      exact congrArg _ (ih (h.keep hlaid hlt) (hassoc ▸ hlaid))

theorem laid_findings {t : Template} {s : ParsedSource} (limit : Nat)
    (hranges : ∀ n ∈ s.root.preOrder, n.Encloses) : Laid (t.findings s limit) := by
  have hsub := t.map_node_findings_sublist s limit
  constructor
  · intro m hm
    exact (hranges m.node (hsub.subset (List.mem_map_of_mem hm))).forward
  · have hall := SourceNode.pairwise_precedes_preOrder
      fun n hn => hranges n (SourceNode.mem_preOrder_iff.2 hn)
    exact List.pairwise_map.1 (hall.sublist hsub)

/-- **A rule keeps the matches that lie in no other one.** Where the ranges of a tree nest, the kept
ones are, in their order, those that begin within none that is above them. A match that holds some
text is kept just when no match is above it; one that holds none is also kept when all that are
above it end where it stands. -/
theorem outermost_eq_filter {t : Template} {s : ParsedSource}
    (hranges : ∀ n ∈ s.root.preOrder, n.Encloses) (limit : Nat) :
    let found := t.findings s limit
    outermost found = (found.filter fun m =>
      ¬∃ a ∈ found, a.node.IsAbove m.node ∧ m.range.start < a.range.stop) ∧
    (∀ m ∈ found, m.range.start < m.range.stop →
      (m ∈ outermost found ↔ ¬∃ a ∈ found, ∃ c ∈ a.node.below, c.Within m.node)) ∧
    (found.length < limit → found = t.allFindings s) := by
  intro found
  have hlaid : Laid found := laid_findings limit hranges
  have hwithin : ∀ m ∈ found, s.root.Within m.node := fun m hm =>
    SourceNode.mem_preOrder_iff.1
      ((t.map_node_findings_sublist s limit).subset (List.mem_map_of_mem hm))
  have hfilter : outermost found = found.filter fun m => ¬∃ a ∈ found, LiesIn m a := by
    have hstart : Covers [] 0 found := fun m _ => by simp
    exact outermostFrom_eq_filter hstart hlaid
  refine ⟨hfilter, ?_, ?_⟩
  · intro m hm htext
    rw [hfilter, List.mem_filter, decide_eq_true_eq, and_iff_right hm]
    apply not_congr
    constructor
    · rintro ⟨a, ha, hlies⟩
      exact ⟨a, ha, (SourceNode.isAbove_iff (hwithin a ha) (hwithin m hm)).1 hlies.1⟩
    · rintro ⟨a, ha, hbelow⟩
      have habove := (SourceNode.isAbove_iff (hwithin a ha) (hwithin m hm)).2 hbelow
      have hstop := hlaid.stop_le ha hm habove
      exact ⟨a, ha, habove, by omega⟩
  · intro hlt
    have htake : found = (t.allFindings s).take limit := t.findings_eq_take s limit
    rw [htake, List.length_take] at hlt
    rw [htake, List.take_of_length_le (by omega)]

/-- A function that lacks its body, at the end of the text. -/
def bodylessFunction : ParsedSource where
  language := .python
  text := "def f():"
  tree :=
    let part kind named start stop field (children : List ParseTree) : ParseTree :=
      .node ⟨kind, named, false, false, false, ⟨start, stop⟩, field⟩ children
    part "module" true 0 8 none
      [part "function_definition" true 0 8 none
        [part "def" false 0 3 none [],
          part "identifier" true 4 5 (some "name") [],
          part "parameters" true 5 7 (some "parameters")
            [part "(" false 5 6 none [], part ")" false 6 7 none []],
          part ":" false 7 8 none [],
          part "block" true 8 8 (some "body") []]]
  hasError := false

def anyNode : Template where
  source := "$X"
  language := .python
  metavariables := [⟨"X", .single, 0⟩]
  pattern := ⟨[.any (some "X")], ["X"], rfl⟩

/-- The empty block is kept along with the module that it ends. -/
theorem outermost_bodylessFunction :
    (outermost (anyNode.findings bodylessFunction 10)).map (·.range) = [⟨0, 8⟩, ⟨8, 8⟩] := by
  have hranges : ∀ n ∈ bodylessFunction.root.preOrder, n.Encloses := by decide +kernel
  obtain ⟨hkept, -, -⟩ := outermost_eq_filter (t := anyNode) hranges 10
  rw [hkept]
  decide +kernel

/-- The matches that are kept need not be those that no match is above. -/
theorem outermost_ne_filter_not_isAbove :
    ¬∀ (t : Template) (s : ParsedSource) (limit : Nat),
      (∀ n ∈ s.root.preOrder, n.Encloses) → (t.findings s limit).length < limit →
      outermost (t.findings s limit) =
        (t.findings s limit).filter fun m => ¬∃ a ∈ t.findings s limit, a.node.IsAbove m.node := by
  intro h
  have hkept := h anyNode bodylessFunction 10 (by decide +kernel) (by decide +kernel)
  exact absurd (congrArg (List.map fun m => m.range) hkept) (by decide +kernel)

end ReplacementRule
end StructuralSearch
