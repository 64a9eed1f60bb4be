import StructuralSearch.Proofs.Replacing.Splice
import StructuralSearch.Proofs.Search.Report

/-!
# Searching finds every match

`Template.allFindings` says what there is to find without a walk and without a limit: at each named
node of the tree that is no comment, the first of all results there. A limit leaves the beginning of
that list. Since a match is kept or dropped by what comes before it, the matches that a rule
replaces under a lower limit are the first of those under a higher one.
-/
namespace StructuralSearch

namespace Template

/-- All that a template can be found at in a source, by the order of the nodes. -/
def allFindings (t : Template) (s : ParsedSource) : List Finding :=
  if s.language = t.language then
    (s.root.preOrder.filter fun n => n.label.named && !n.label.extra).filterMap fun n =>
      ((t.pattern.onNode n).results SourceNode.target).head?.map (t.report n)
  else []

theorem findingAt?_eq (t : Template) (n : SourceNode) :
    t.findingAt? n = ((t.pattern.onNode n).results SourceNode.target).head?.map (t.report n) := by
  rw [findingAt?, CheckedPattern.preferred?_eq_head?, CheckedPattern.onNode,
    CheckedPattern.onSequence, Matcher.results_start]
  rfl

theorem filterMap_findingAt?_candidates (t : Template) (s : ParsedSource) :
    (t.candidates s).filterMap t.findingAt? = t.allFindings s := by
  rw [candidates, allFindings, ParsedSource.nodes_eq_preOrder]
  split
  · exact List.filterMap_congr fun n _ => t.findingAt?_eq n
  · rfl

theorem findings_eq_take (t : Template) (s : ParsedSource) (limit : Nat) :
    t.findings s limit = (t.allFindings s).take limit := by
  rw [findings, findingsAmong_eq_take, filterMap_findingAt?_candidates]

theorem firstFinding?_eq_head? (t : Template) (s : ParsedSource) :
    t.firstFinding? s = (t.allFindings s).head? := by
  rw [firstFinding?, ← filterMap_findingAt?_candidates, List.head?_filterMap]

theorem prefix_findings (t : Template) (s : ParsedSource) {few many : Nat} (h : few ≤ many) :
    t.findings s few <+: t.findings s many := by
  rw [findings_eq_take, findings_eq_take]
  exact List.take_prefix_take_left h

/-- Each match found is the report on the first result at its node: it captures, in increasing
order, the names of the result that the template declares, with what they stand for. -/
theorem report_of_mem_allFindings {t : Template} {s : ParsedSource} {found : Finding}
    (h : found ∈ t.allFindings s) :
    ∃ result, ((t.pattern.onNode found.node).results SourceNode.target).head? = some result ∧
      (found.captures.map (·.1)).Pairwise (· < ·) ∧
      ∀ c, c ∈ found.captures ↔
        c.1 ∈ result.names ∧ t.captured? s.text c.1 (result.get c.1) = some c.2 := by
  rw [allFindings] at h
  split at h
  · obtain ⟨n, hn, hfound⟩ := List.mem_filterMap.1 h
    obtain ⟨result, hresult, rfl⟩ := Option.map_eq_some_iff.1 hfound
    have hsource : n.source = s.text := SourceNode.source_of_mem_preOrder (List.mem_filter.1 hn).1
    have hlog := List.mem_of_head? hresult
    rw [CheckedPattern.onNode, CheckedPattern.onSequence, Matcher.results_start] at hlog
    obtain ⟨o, -, rfl⟩ := List.mem_map.1 hlog
    refine ⟨_, hresult, pairwise_name_captures_report t n o.log, fun c => ?_⟩
    rw [mem_captures_report, Match.get_ofLog, Match.names_ofLog, hsource]
  · cases h

end Template

namespace ReplacementRule

/-- What is kept of a list is kept whatever comes after it. -/
theorem prefix_outermostFrom {few many : List Finding} (h : few <+: many) (covered : Nat) :
    outermostFrom covered few <+: outermostFrom covered many := by
  obtain ⟨more, rfl⟩ := h
  induction few generalizing covered with
  | nil => exact List.nil_prefix
  | cons found rest ih =>
    rw [List.cons_append, outermostFrom, outermostFrom]
    split
    · exact ih covered
    · exact List.cons_prefix_cons.2 ⟨rfl, ih found.range.stop⟩

end ReplacementRule

namespace Template

open ReplacementRule (outermost prefix_outermostFrom replaceAll apply_eq)

/-- **A search finds every match, and a limit cuts the list off.** The nodes of the tree come once
each in the order of their ways from the root. A search finds the first of the results at each of
them that is named and no comment, up to the limit, and in another language nothing. A rule replaces
the outermost of what a search finds. A lower limit leaves the beginning of what a higher one finds,
and of what a rule replaces. -/
theorem search_is_exact (t : Template) (s : ParsedSource) :
    (∀ n, n ∈ s.root.preOrder ↔ s.root.Within n) ∧
    (s.root.preOrder.Pairwise fun m n => m.way < n.way) ∧
    (∀ limit, t.findings s limit = (t.allFindings s).take limit) ∧
    (s.language ≠ t.language → ∀ limit, t.findings s limit = []) ∧
    t.firstFinding? s = (t.allFindings s).head? ∧
    (∀ (parser : Parser) (replacement source : String),
      parser.parse t.language source = .ok s → ∀ limit,
        ReplacementRule.apply parser t.language limit ⟨t, replacement⟩ source =
          (replaceAll replacement (outermost (t.findings s limit)) source).map fun text =>
            ⟨text, (outermost (t.findings s limit)).length⟩) ∧
    ∀ few many, few ≤ many →
      t.findings s few <+: t.findings s many ∧
      outermost (t.findings s few) <+: outermost (t.findings s many) := by
  refine ⟨fun n => SourceNode.mem_preOrder_iff, s.root.pairwise_way_preOrder,
    t.findings_eq_take s, ?_, t.firstFinding?_eq_head? s, ?_, ?_⟩
  · intro hother limit
    rw [findings_eq_take, allFindings, if_neg hother, List.take_nil]
  · intro parser replacement source hparse limit
    exact @apply_eq parser ⟨t, replacement⟩ source s limit hparse
  · intro few many hle
    have hfew := t.prefix_findings s hle
    exact ⟨hfew, prefix_outermostFrom hfew 0⟩

end Template
end StructuralSearch
