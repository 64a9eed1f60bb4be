import StructuralSearch.Proofs.Matching.Derivation
import StructuralSearch.Proofs.Template.Conversion
import StructuralSearch.Search.Finding

/-!
# What a match binds

Every match of a template binds the same names: those that conversion has read from placeholders,
but for the wildcard. A name read from the placeholder of a single node is bound to some node, even
where it is compared with an earlier one. A name that stands only in the text of the template, and
at no node that is its placeholder, is bound by no match.
-/
namespace StructuralSearch

theorem Log.mem_names_addRun {ν : Type} {l : Log ν} {name other : String} {nodes : List ν} :
    other ∈ (l.addRun name nodes).names ↔ other ∈ l.names ∨ other = name := by
  rw [mem_names, mem_names, toList_addRun, List.map_append, List.mem_append]
  apply or_congr_right
  cases nodes with
  | nil => exact List.mem_singleton
  | cons n rest => simp [Binding.ofRun, eq_comm]

theorem Log.mem_names_of_boundTo_ne_nil {ν : Type} {l : Log ν} {name : String}
    (h : l.boundTo name ≠ []) : name ∈ l.names := by
  by_contra hname
  exact h (boundTo_eq_nil hname)

namespace Template

open SourceNode (target)

/-- Matching the metavariables leads from one log to another. -/
structure Binds (found : List (String × MetavariableKind)) (log log' : Log SourceNode) : Prop where
  names : ∀ name, name ∈ log'.names ↔
    name ∈ log.names ∨ name ≠ wildcard ∧ name ∈ found.map (·.1)
  grows : ∀ name, log.boundTo name ≠ [] → log'.boundTo name ≠ []
  single : ∀ name, name ≠ wildcard → (name, .single) ∈ found → log'.boundTo name ≠ []

namespace Binds

variable {log log' log'' : Log SourceNode}

theorem nil : Binds [] log log where
  names name := by simp
  grows _ h := h
  single _ _ h := nomatch h

theorem append {found found' : List (String × MetavariableKind)} (h : Binds found log log')
    (h' : Binds found' log' log'') : Binds (found ++ found') log log'' := by
  constructor
  · intro name
    rw [h'.names, h.names, List.map_append, List.mem_append, and_or_left, or_assoc]
  · intro name hname
    exact h'.grows name (h.grows name hname)
  · intro name hnamed hname
    rcases List.mem_append.1 hname with hname | hname
    · exact h'.grows name (h.single name hnamed hname)
    · exact h'.single name hnamed hname

theorem wildcard (kind : MetavariableKind) : Binds [(wildcard, kind)] log log where
  names name := by simp
  grows _ h := h
  single _ hnamed h := by simp_all

theorem addRun {name : String} (hnamed : name ≠ Template.wildcard) (kind : MetavariableKind)
    {nodes : List SourceNode} (hkind : kind = .single → nodes ≠ []) :
    Binds [(name, kind)] log (log.addRun name nodes) := by
  constructor
  · intro other
    rw [Log.mem_names_addRun, List.map_singleton, List.mem_singleton]
    apply or_congr_right
    constructor
    · rintro rfl
      exact ⟨hnamed, rfl⟩
    · exact And.right
  · intro other hother
    rw [Log.boundTo_addRun]
    exact List.append_ne_nil_of_left_ne_nil hother _
  · intro other _ hother
    cases List.mem_singleton.1 hother
    rw [Log.boundTo_addRun, if_pos rfl]
    exact List.append_ne_nil_of_right_ne_nil _ (hkind rfl)

/-- A comparison with what a name is bound to leaves the log as it is. -/
theorem backreference {name : String} (hbound : log.boundTo name ≠ []) :
    Binds [(name, .single)] log log := by
  constructor
  · intro other
    rw [List.map_singleton, List.mem_singleton]
    constructor
    · exact .inl
    · rintro (hother | ⟨-, rfl⟩)
      · exact hother
      · exact Log.mem_names_of_boundTo_ne_nil hbound
  · exact fun _ h => h
  · intro other _ hother
    cases List.mem_singleton.1 hother
    exact hbound

end Binds

theorem log_of_mem_outcomes_star_any {ν : Type} {t : Target ν} {slot : Role}
    {siblings : Array (Child ν)} {i : Nat} {log : Log ν} {o : Outcome ν}
    (h : o ∈ Pattern.outcomes t (.star (.any none)) slot siblings i log) : o.log = log := by
  refine rel_of_mem_repeatOutcomes (R := fun o o' => o'.log = o.log) (fun _ => rfl)
    (fun _ _ _ hfirst hrest => hrest.trans hfirst) ?_ h
  intro i log o ho
  obtain ⟨_, -, rfl⟩ := List.mem_map.1 ho
  rfl

/-- The pattern of a single node, without what the slot expects. -/
def singlePattern (bound : List String) (name : String) : Pattern :=
  if name = wildcard then .any none
  else if bound.contains name then .backreference name
  else .any (some name)

/-- The names bound after a single node. -/
def singleBound (bound : List String) (name : String) : List String :=
  if name = wildcard then bound
  else if bound.contains name then bound
  else name :: bound

theorem metavariablePattern_single (bound : List String) (name : String) (slot : Role) :
    metavariablePattern bound name .single slot =
      (match slot.expects with
        | some construct => .adapter construct (singlePattern bound name)
        | none => singlePattern bound name, singleBound bound name) := by
  rw [metavariablePattern, singlePattern, singleBound]
  by_cases hnamed : name = wildcard
  · cases slot.expects <;> simp only [if_pos hnamed]
  · by_cases hbound : bound.contains name
    · cases slot.expects <;> simp only [if_neg hnamed, if_pos hbound]
    · cases slot.expects <;> simp only [if_neg hnamed, if_neg hbound]

/-- What the slot expects only takes outcomes away. -/
theorem mem_outcomes_singlePattern {bound : List String} {name : String} {slot slot' : Role}
    {siblings : Array (Child SourceNode)} {i : Nat} {log : Log SourceNode}
    {o : Outcome SourceNode} (h : o ∈ Pattern.outcomes target
      (metavariablePattern bound name .single slot).1 slot' siblings i log) :
    o ∈ Pattern.outcomes target (singlePattern bound name) slot' siblings i log := by
  rw [metavariablePattern_single] at h
  dsimp only at h
  split at h
  · exact (List.mem_filter.1 h).1
  · exact h

theorem binds_singlePattern {bound : List String} {name : String} {slot : Role}
    {siblings : Array (Child SourceNode)} {i : Nat} {log : Log SourceNode}
    {o : Outcome SourceNode}
    (h : o ∈ Pattern.outcomes target (singlePattern bound name) slot siblings i log) :
    Binds [(name, .single)] log o.log := by
  unfold singlePattern at h
  split at h
  · rename_i hname
    obtain ⟨_, -, rfl⟩ := List.mem_map.1 h
    rw [hname]
    exact .wildcard .single
  · rename_i hnamed
    split at h
    · obtain ⟨child, hchild, rfl⟩ := List.mem_map.1 h
      have hbound := (Bool.and_eq_true_iff.1 (List.mem_filter.1 hchild).2).1
      exact .backreference (by simpa using hbound)
    · obtain ⟨child, -, rfl⟩ := List.mem_map.1 h
      exact .addRun hnamed .single fun _ => List.cons_ne_nil child.node []

theorem binds_metavariablePattern {bound : List String} {name : String} {kind : MetavariableKind}
    {slot slot' : Role} {siblings : Array (Child SourceNode)} {i : Nat} {log : Log SourceNode}
    {o : Outcome SourceNode} (h : o ∈ Pattern.outcomes target
      (metavariablePattern bound name kind slot).1 slot' siblings i log) :
    Binds [(name, kind)] log o.log := by
  cases kind with
  | single => exact binds_singlePattern (mem_outcomes_singlePattern h)
  | multiple =>
    rw [metavariablePattern] at h
    split at h
    · rename_i hname
      rw [log_of_mem_outcomes_star_any h, hname]
      exact .wildcard .multiple
    · rename_i hnamed
      obtain ⟨inner, hinner, rfl⟩ := List.mem_map.1 h
      rw [log_of_mem_outcomes_star_any hinner]
      exact .addRun hnamed .multiple nofun

/-- The pattern of a template binds what conversion has read. -/
theorem binds_toPattern :
    (∀ (bound : List String) (n : SourceNode) (slot slot' : Role)
      (siblings : Array (Child SourceNode)) (i : Nat) (log : Log SourceNode),
      ∀ o ∈ Pattern.outcomes target (toPattern bound n slot).1 slot' siblings i log,
        Binds (decoded n) log o.log) ∧
    (∀ (bound : List String) (cs : List (Child SourceNode)) (siblings : Array (Child SourceNode))
      (i : Nat) (log : Log SourceNode),
      ∀ o ∈ Pattern.outcomesInTurn target (toSlots bound cs).1 siblings i log,
        Binds (cs.flatMap fun c => decoded c.node) log o.log) := by
  apply toPattern.mutual_induct
  · intro bound n slot name kind hfound slot' siblings i log o ho
    rw [toPattern_of_found hfound] at ho
    rw [decoded_of_found hfound]
    exact binds_metavariablePattern ho
  · intro bound n slot hliteral slots bound' hslots ih slot' siblings i log o ho
    rw [toPattern_of_literal hliteral] at ho
    rw [decoded_of_literal hliteral]
    obtain ⟨child, -, ho⟩ := List.mem_flatMap.1 ho
    obtain ⟨inner, hinner, rfl⟩ := List.mem_map.1 ho
    exact ih _ 0 log inner (List.mem_filter.1 hinner).1
  · intro bound siblings i log o ho
    rw [toSlots_nil] at ho
    obtain rfl := List.mem_singleton.1 ho
    exact .nil
  · intro bound c rest p bound' hp slots bound'' hslots ih ihrest siblings i log o ho
    rw [toSlots_cons, hp] at ho
    rw [hp] at ih
    obtain ⟨first, hfirst, ho⟩ := List.mem_flatMap.1 ho
    rw [List.flatMap_cons]
    exact (ih c.role siblings i log first hfirst).append (ihrest siblings _ _ o ho)

end Template
end StructuralSearch
