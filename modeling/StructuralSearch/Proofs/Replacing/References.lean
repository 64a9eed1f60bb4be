import StructuralSearch.Proofs.Search.Report
import StructuralSearch.Proofs.Template.Binding
import StructuralSearch.Replacing.Rule

/-!
# References in a replacement

A rule is accepted when its replacement refers to names that stand in the text of the template. A
match captures the names whose placeholders stand in its tree. A reference to one of these gives way
to captured text in every match; a reference to a name without a placeholder of its own, such as one
in a comment, is copied into every replacement.
-/
namespace StructuralSearch

namespace Template

open SourceNode (target)

/-- The preferred match at a node is an outcome of the pattern that takes the node. -/
theorem exists_outcome_of_findingAt? {t : Template} {root n : SourceNode} {found : Finding}
    (hpattern : CheckedPattern.ofPattern (toPattern [] root .root).1 = .ok t.pattern)
    (h : t.findingAt? n = some found) :
    ∃ o ∈ Pattern.outcomes target (toPattern [] root .root).1 .root #[⟨.root, n⟩] 0 .empty,
      o.index = 1 ∧ t.pattern.preferred? target n = some (.ofLog o.log) ∧
      found = t.report n (.ofLog o.log) := by
  obtain ⟨result, hresult, rfl⟩ := Option.map_eq_some_iff.1 h
  have hhead := hresult
  rw [CheckedPattern.preferred?_eq_head?, CheckedPattern.ofPattern_eq_ok_iff.1 hpattern] at hhead
  obtain ⟨o, ho, rfl⟩ := List.mem_map.1 (List.mem_of_head? hhead)
  obtain ⟨ho, hend⟩ := List.mem_filter.1 ho
  obtain ⟨first, hfirst, ho⟩ := List.mem_flatMap.1 ho
  obtain rfl := List.mem_singleton.1 ho
  exact ⟨first, hfirst, beq_iff_eq.1 hend, hresult, rfl⟩

/-- What a search finds captures what the conversion of the template has read. -/
theorem exists_binds_of_mem_findings {t : Template} {root : SourceNode}
    (hpattern : CheckedPattern.ofPattern (toPattern [] root .root).1 = .ok t.pattern)
    {s : ParsedSource} {limit : Nat} {found : Finding} (h : found ∈ t.findings s limit) :
    ∃ n log, Binds (decoded root) .empty log ∧ found = t.report n (.ofLog log) := by
  obtain ⟨n, -, hfound⟩ := exists_findingAt?_of_mem_findings h
  obtain ⟨o, ho, -, -, rfl⟩ := exists_outcome_of_findingAt? hpattern hfound
  exact ⟨n, o.log, binds_toPattern.1 [] root .root .root _ 0 .empty o ho, rfl⟩

theorem exists_kindOf? {t : Template} {name : String} (h : name ∈ t.metavariables.map (·.name))
    (hnamed : name ≠ wildcard) : ∃ kind, t.kindOf? name = some kind := by
  obtain ⟨m, hm, rfl⟩ := List.mem_map.1 h
  have hsome : (t.kindOf? m.name).isSome := by
    rw [kindOf?, Option.isSome_map, List.find?_isSome]
    exact ⟨m, hm, by simp [Metavariable.isWildcard, hnamed]⟩
  exact Option.isSome_iff_exists.1 hsome

/-- A name of the template's text has a value when it is bound, unless it stands for one node and
is bound to none. -/
theorem exists_captured? {t : Template} (source : String) {name : String}
    {kind : MetavariableKind} {nodes : List SourceNode} (hkind : t.kindOf? name = some kind)
    (hnodes : kind = .single → nodes ≠ []) : ∃ value, t.captured? source name nodes = some value := by
  rw [captured?, hkind]
  cases kind with
  | single =>
    obtain ⟨n, rest, rfl⟩ := List.exists_cons_of_ne_nil (hnodes rfl)
    exact ⟨.single n, rfl⟩
  | multiple => exact ⟨.ofRun source nodes, rfl⟩

end Template

namespace ReplacementRule

open Template (Segment wildcard)

theorem ofTemplate_eq_ok_iff {t : Template} {replacement : String} {rule : ReplacementRule} :
    ofTemplate t replacement = .ok rule ↔ rule = ⟨t, replacement⟩ ∧
      ∀ name ∈ Replacement.references replacement, name ≠ wildcard →
        name ∈ t.metavariables.map (·.name) := by
  rw [ofTemplate]
  split
  · rename_i name hname
    have hbad := List.find?_some hname
    have hmem := List.mem_of_find?_eq_some hname
    simp only [Bool.and_eq_true, bne_iff_ne, Bool.not_eq_true', List.contains_eq_mem,
      decide_eq_false_iff_not] at hbad
    constructor
    · rintro ⟨⟩
    · rintro ⟨-, hknown⟩
      exact absurd (hknown name hmem hbad.1) hbad.2
  · rename_i hnone
    rw [List.find?_eq_none] at hnone
    have hknown : ∀ name ∈ Replacement.references replacement, name ≠ wildcard →
        name ∈ t.metavariables.map (·.name) := by
      intro name hname hnamed
      simpa [hnamed] using hnone name hname
    constructor
    · rintro ⟨⟩
      exact ⟨rfl, hknown⟩
    · rintro ⟨rfl, -⟩
      rfl

/-- **What becomes of the references of an accepted rule.** Every name referred to stands in the
text of the template, so it has a kind. Where a placeholder of that name is read from the tree of
the template, and for a single node that of a single node, each match captures the name, and the
reference gives way to what it captures. Where no placeholder of that name is read, no match
captures it, and the reference is copied as it stands. -/
theorem references_are_filled {parser : Parser} {language : Language} {source : String}
    {t : Template} {replacement : String} {rule : ReplacementRule}
    (hcompile : Template.compile parser language source = .ok t)
    (hrule : ofTemplate t replacement = .ok rule) :
    ∃ root, Template.denoted? parser language source = some root ∧
      ∀ (s : ParsedSource) (limit : Nat), ∀ found ∈ rule.template.findings s limit,
        ∀ segment ∈ Segment.ofText rule.replacement.toList, ∀ name,
          segment.reference? = some name → name ≠ wildcard →
            ∃ kind, t.kindOf? name = some kind ∧
              (name ∈ (Template.decoded root).map (·.1) →
                (kind = .single → (name, .single) ∈ Template.decoded root) → ∃ value,
                  found.capture? name = some value ∧
                    Replacement.fill found segment = value.text.toList) ∧
              (name ∉ (Template.decoded root).map (·.1) →
                found.capture? name = none ∧ Replacement.fill found segment = segment.text) := by
  obtain ⟨root, hroot, hpattern, -, -, -⟩ := Template.compile_eq_ok_iff.1 hcompile
  obtain ⟨rfl, hknown⟩ := ofTemplate_eq_ok_iff.1 hrule
  refine ⟨root, hroot, ?_⟩
  intro s limit found hfound segment hsegment name hname hnamed
  obtain ⟨n, log, hbinds, rfl⟩ := Template.exists_binds_of_mem_findings hpattern hfound
  have href : name ∈ Replacement.references replacement :=
    List.mem_filterMap.2 ⟨segment, hsegment, hname⟩
  obtain ⟨kind, hkind⟩ := Template.exists_kindOf? (hknown name href hnamed) hnamed
  have hbound : name ∈ log.names ↔ name ∈ (Template.decoded root).map (·.1) := by
    rw [hbinds.names, Log.mem_names, Log.toList_empty, List.map_nil]
    simp [hnamed]
  refine ⟨kind, hkind, ?_, ?_⟩
  · intro hdecoded hsingle
    have hnodes : kind = .single → log.boundTo name ≠ [] :=
      fun hone => hbinds.single name hnamed (hsingle hone)
    obtain ⟨value, hvalue⟩ := Template.exists_captured? n.source hkind hnodes
    have hcapture : (t.report n (.ofLog log)).capture? name = some value := by
      rw [Template.capture?_report, if_pos (hbound.2 hdecoded), hvalue]
    refine ⟨value, hcapture, ?_⟩
    simp only [Replacement.fill, hname, if_neg hnamed, hcapture]
  · intro hdecoded
    have hcapture : (t.report n (.ofLog log)).capture? name = none := by
      rw [Template.capture?_report, if_neg (mt hbound.1 hdecoded)]
    refine ⟨hcapture, ?_⟩
    simp only [Replacement.fill, hname, if_neg hnamed, hcapture]

/-! ## A metavariable in a comment -/

/-- The code of a template with one metavariable in a comment. -/
def commentedCode : String := "__HEDDLE_METAVAR_Y__  # __HEDDLE_METAVAR_X__"

def commentedTree : ParseTree :=
  .node ⟨"module", true, false, false, false, ⟨0, 44⟩, none⟩
    [.node ⟨"expression_statement", true, false, false, false, ⟨0, 20⟩, none⟩
      [.node ⟨"identifier", true, false, false, false, ⟨0, 20⟩, none⟩ []],
      .node ⟨"comment", true, true, false, false, ⟨22, 44⟩, none⟩ []]

def commentedParser : Parser :=
  fun _ text => if text = commentedCode then some ⟨commentedTree, false⟩ else none

def commented : Template where
  source := "$Y  # $X"
  language := .python
  metavariables := [⟨"Y", .single, 0⟩, ⟨"X", .single, 6⟩]
  pattern := ⟨[.any (some "Y")], ["Y"], rfl⟩

/-- The node before the comment. -/
def commentedRoot : SourceNode :=
  let statement := commentedTree.children.head!
  ⟨commentedCode, [(0, statement), (0, commentedTree)], statement.children.head!⟩

theorem denoted?_commented :
    Template.denoted? commentedParser .python "$Y  # $X" = some commentedRoot := by
  have hcode : Template.withPlaceholders "$Y  # $X" =
      .ok (commentedCode, commented.metavariables) := by decide +kernel
  have hparse : commentedParser .python commentedCode = some ⟨commentedTree, false⟩ := rfl
  rw [Template.denoted?_of_parse hcode hparse]
  show SourceNode.peel _ = _
  rw [SourceNode.peel_of_soleNamed? (show _ = some commentedRoot from rfl) (by decide +kernel),
    SourceNode.peel_of_not_onlyTerminates (by decide +kernel)]

theorem decoded_commentedRoot : Template.decoded commentedRoot = [("Y", .single)] :=
  Template.decoded_of_found (by decide +kernel)

theorem compile_commented :
    Template.compile commentedParser .python "$Y  # $X" = .ok commented := by
  have hpattern : (Template.toPattern [] commentedRoot .root).1 = .any (some "Y") := by
    rw [Template.toPattern_of_found (show commentedRoot.metavariable? = some ("Y", .single) by
      decide +kernel)]
    rfl
  refine Template.compile_eq_ok_iff.2 ⟨commentedRoot, denoted?_commented, ?_, ?_, rfl, rfl⟩
  · rw [hpattern]
    rfl
  · decide +kernel

theorem ofTemplate_commented :
    ofTemplate commented "f($X, $Y)" = .ok ⟨commented, "f($X, $Y)"⟩ :=
  ofTemplate_eq_ok_iff.2 ⟨rfl, by decide +kernel⟩

def oneNumber : ParsedSource where
  language := .python
  text := "1"
  tree := .node ⟨"module", true, false, false, false, ⟨0, 1⟩, none⟩
    [.node ⟨"expression_statement", true, false, false, false, ⟨0, 1⟩, none⟩
      [.node ⟨"integer", true, false, false, false, ⟨0, 1⟩, none⟩ []]]
  hasError := false

/-- The reference to the name in the comment is copied, the other one is filled. -/
theorem fill_commented :
    ∃ found ∈ commented.findings oneNumber 1,
      (∃ value, found.capture? "Y" = some value ∧
        Replacement.fill found (.reference 1 "Y") = value.text.toList) ∧
      Replacement.fill found (.reference 1 "X") = ['$', 'X'] := by
  obtain ⟨root, hroot, hfilled⟩ := references_are_filled compile_commented ofTemplate_commented
  cases hroot.symm.trans denoted?_commented
  have hsome : commented.findings oneNumber 1 ≠ [] := by
    intro hnone
    exact absurd (congrArg List.length hnone) (by decide +kernel)
  obtain ⟨found, hfound⟩ := List.exists_mem_of_ne_nil _ hsome
  have hsegments : ∀ name ∈ ["X", "Y"],
      .reference 1 name ∈ Segment.ofText "f($X, $Y)".toList := by decide +kernel
  have hfill := hfilled oneNumber 1 found hfound
  obtain ⟨kind, -, hy, -⟩ :=
    hfill (.reference 1 "Y") (hsegments "Y" (by decide)) "Y" (by decide +kernel) (by decide)
  obtain ⟨-, -, -, hx⟩ :=
    hfill (.reference 1 "X") (hsegments "X" (by decide)) "X" (by decide +kernel) (by decide)
  rw [decoded_commentedRoot] at hx hy
  have hyfilled := hy (List.mem_singleton_self _) fun _ => List.mem_singleton_self _
  exact ⟨found, hfound, hyfilled, (hx (by decide)).2⟩

/-- A reference that is accepted need not be captured. -/
theorem accepted_reference_not_captured :
    ¬∀ (parser : Parser) (language : Language) (source replacement : String) (t : Template)
      (rule : ReplacementRule), Template.compile parser language source = .ok t →
      ofTemplate t replacement = .ok rule →
      ∀ (s : ParsedSource) (limit : Nat), ∀ found ∈ rule.template.findings s limit,
        ∀ name ∈ Replacement.references rule.replacement, name ≠ wildcard →
          (found.capture? name).isSome := by
  intro h
  have hcaptured := h commentedParser .python "$Y  # $X" "f($X, $Y)" commented _ compile_commented
    ofTemplate_commented oneNumber 1
  have hnone : (commented.findings oneNumber 1).any fun found => (found.capture? "X").isNone := by
    decide +kernel
  obtain ⟨found, hfound, hx⟩ := List.any_eq_true.1 hnone
  have hsome := hcaptured found hfound "X" (by decide +kernel) (by decide)
  rw [Option.isNone_iff_eq_none.1 hx] at hsome
  cases hsome

end ReplacementRule
end StructuralSearch
