import StructuralSearch.Proofs.Matching.Captures
import StructuralSearch.Search.Finding

/-!
# What a search reports of a match

The report on a match keeps the node and, of the names bound, those that the template declares. They
are in increasing order, each with what it stands for among the nodes bound to it.
-/
namespace StructuralSearch

/-- Values that are found by name alone are looked up by finding them. -/
theorem lookup_filterMap_graph {α : Type} (f : String → Option α) (names : List String)
    (name : String) : (names.filterMap fun other => (f other).map fun value => (other, value)).lookup
      name = if name ∈ names then f name else none := by
  induction names with
  | nil => rfl
  | cons first rest ih =>
    rw [List.filterMap_cons]
    by_cases hname : name = first
    · subst hname
      cases hf : f name with
      | some value => simp
      | none =>
        simp only [Option.map_none, ih, hf, ite_self]
    · have hmem : name ∈ first :: rest ↔ name ∈ rest := by simp [hname]
      simp only [hmem, ← ih]
      cases f first with
      | some value =>
        show List.lookup name ((first, value) :: _) = _
        rw [List.lookup_cons, beq_false_of_ne hname]
      | none => rfl

namespace Template

variable {t : Template} {n : SourceNode} {log : Log SourceNode}

@[simp] theorem node_report (found : Match SourceNode) : (t.report n found).node = n :=
  rfl

theorem capture?_report (t : Template) (n : SourceNode) (log : Log SourceNode) (name : String) :
    (t.report n (.ofLog log)).capture? name =
      if name ∈ log.names then t.captured? n.source name (log.boundTo name) else none := by
  rw [Finding.capture?, report, Match.ofLog, List.filterMap_map]
  exact lookup_filterMap_graph (fun name => t.captured? n.source name (log.boundTo name)) _ name

/-- The names of a report are those bound that stand for something. -/
theorem map_name_captures_report (t : Template) (n : SourceNode) (log : Log SourceNode) :
    (t.report n (.ofLog log)).captures.map (·.1) =
      log.names.filter fun name => (t.captured? n.source name (log.boundTo name)).isSome := by
  rw [report, Match.ofLog, List.filterMap_map, List.map_filterMap, ← List.filterMap_eq_filter]
  refine List.filterMap_congr fun name _ => ?_
  show ((t.captured? n.source name (log.boundTo name)).map _).map _ = _
  cases h : t.captured? n.source name (log.boundTo name) <;> simp [h, Option.guard]

theorem pairwise_name_captures_report (t : Template) (n : SourceNode) (log : Log SourceNode) :
    ((t.report n (.ofLog log)).captures.map (·.1)).Pairwise (· < ·) := by
  rw [map_name_captures_report]
  exact log.pairwise_names.sublist List.filter_sublist

theorem mem_captures_report {c : String × Captured} :
    c ∈ (t.report n (.ofLog log)).captures ↔
      c.1 ∈ log.names ∧ t.captured? n.source c.1 (log.boundTo c.1) = some c.2 := by
  constructor
  · intro h
    obtain ⟨entry, hentry, hc⟩ := List.mem_filterMap.1 h
    obtain ⟨name, hname, rfl⟩ := List.mem_map.1 hentry
    obtain ⟨value, hvalue, rfl⟩ := Option.map_eq_some_iff.1 hc
    exact ⟨hname, hvalue⟩
  · rintro ⟨hname, hvalue⟩
    refine List.mem_filterMap.2 ⟨(c.1, log.boundTo c.1), List.mem_map_of_mem hname, ?_⟩
    rw [hvalue]
    rfl

end Template
end StructuralSearch
