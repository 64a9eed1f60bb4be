import Mathlib.Data.List.Sort
import Mathlib.Data.String.Basic
import StructuralSearch.Proofs.Matching.Outcomes

/-!
# What a match keeps of a log

For each name a match has the nodes that were bound to it, in the order of binding. The names are in
increasing order, each of them once; by this they are known, without sorting.
-/
namespace StructuralSearch

variable {ν : Type}

theorem nodup_eraseDups (names : List String) : names.eraseDups.Nodup := by
  cases names with
  | nil => exact .nil
  | cons name rest =>
    rw [List.eraseDups_cons, List.nodup_cons, List.mem_eraseDups]
    exact ⟨by simp, nodup_eraseDups _⟩
termination_by names.length
decreasing_by exact Nat.lt_succ_of_le (List.length_filter_le _ _)

namespace Log

theorem boundTo_add (l : Log ν) (name other : String) (n : ν) :
    (l.add ⟨name, some n⟩).boundTo other = l.boundTo other ++ if name = other then [n] else [] := by
  rw [boundTo, boundTo, toList_add, List.filterMap_append]
  congr 1
  by_cases he : name = other <;> simp [he]

theorem filterMap_ofRun (name other : String) (nodes : List ν) :
    (Binding.ofRun name nodes).filterMap (fun b => if b.name = other then b.node else none) =
      if name = other then nodes else [] := by
  cases nodes with
  | nil => by_cases he : name = other <;> simp [Binding.ofRun, he]
  | cons n nodes =>
    by_cases he : name = other <;> simp [Binding.ofRun, he]

theorem boundTo_addRun (l : Log ν) (name other : String) (nodes : List ν) :
    (l.addRun name nodes).boundTo other =
      l.boundTo other ++ if name = other then nodes else [] := by
  rw [boundTo, boundTo, toList_addRun, List.filterMap_append, filterMap_ofRun]

theorem mem_names {l : Log ν} {name : String} : name ∈ l.names ↔ name ∈ l.toList.map (·.name) := by
  rw [names, List.mem_mergeSort, List.mem_eraseDups]

theorem boundTo_eq_nil {l : Log ν} {name : String} (h : name ∉ l.names) : l.boundTo name = [] := by
  rw [boundTo, List.filterMap_eq_nil_iff]
  intro b hb
  have hne : b.name ≠ name := by
    rintro rfl
    exact h (mem_names.2 (List.mem_map_of_mem hb))
  exact if_neg hne

theorem nodup_names (l : Log ν) : l.names.Nodup :=
  (List.mergeSort_perm _ _).nodup_iff.2 (nodup_eraseDups _)

theorem pairwise_names (l : Log ν) : l.names.Pairwise (· < ·) := by
  have hsorted : l.names.Pairwise (· ≤ ·) := List.pairwise_mergeSort' (· ≤ ·) _
  exact hsorted.imp₂ (fun _ _ => lt_of_le_of_ne) l.nodup_names

/-- Names in increasing order are those of the log when they are the ones bound. -/
theorem names_eq {l : Log ν} {names : List String} (horder : names.Pairwise (· < ·))
    (hbound : ∀ b ∈ l.toList, b.name ∈ names)
    (hnames : ∀ name ∈ names, ∃ b ∈ l.toList, b.name = name) :
    l.names = names := by
  have hperm : l.names.Perm names := by
    rw [List.perm_ext_iff_of_nodup l.nodup_names (horder.imp fun h => h.ne)]
    intro name
    rw [mem_names, List.mem_map]
    refine ⟨?_, hnames name⟩
    rintro ⟨b, hb, rfl⟩
    exact hbound b hb
  exact hperm.eq_of_pairwise' (l.pairwise_names.imp fun h => h.le) (horder.imp fun h => h.le)

end Log

/-- A match has the nodes that the log bound. -/
theorem Match.get_ofLog (log : Log ν) : (Match.ofLog log).get = log.boundTo := by
  funext name
  rw [Match.get, Match.ofLog]
  by_cases hname : name ∈ log.names
  · rw [List.lookup_graph log.boundTo hname, Option.getD_some]
  · have hnone : (log.names.map fun name => (name, log.boundTo name)).lookup name = none := by
      simp only [List.lookup_eq_none_iff, List.mem_map, forall_exists_index, and_imp,
        forall_apply_eq_imp_iff₂, bne_iff_ne]
      intro other hother he
      exact hname (he ▸ hother)
    rw [hnone, Option.getD_none, Log.boundTo_eq_nil hname]

theorem Match.names_ofLog (log : Log ν) : (Match.ofLog log).names = log.names := by
  rw [Match.names, Match.ofLog, List.map_map]
  exact List.map_id log.names

/-- What matches give for names, without the names themselves. -/
theorem map_get_matchesOf {α : Type} (t : Target ν) (elements : List Pattern)
    (siblings : List (Child ν)) (f : (String → List ν) → α) :
    (matchesOf t elements siblings).map (fun m => f m.get) =
      ((Pattern.outcomesInTurn t (inNoSlot elements) siblings.toArray 0 .empty).filter fun o =>
        o.index == siblings.length).map fun o => f o.log.boundTo := by
  rw [matchesOf, List.map_map]
  simp only [Function.comp_def, Match.get_ofLog]

end StructuralSearch
