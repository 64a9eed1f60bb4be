import StructuralSearch.Proofs.Matching.Levels

/-!
# Matching ends

From any state of a run only finitely many steps are left, as each lowers the cost. So every pull
comes back with an answer, and after finitely many matches there is none. Nor do the numbers grow
that the matcher counts with: a position is at most the number of siblings, and so is the number of
times of a repetition, apart from the time that is going on.
-/
namespace StructuralSearch

variable {ν : Type}

/-- A pull takes one step after the other until one completes a match or the matcher is finished. -/
inductive Pulls (t : Target ν) : Matcher ν → Option (Match ν) → Matcher ν → Prop where
  | finished {m : Matcher ν} (hmode : m.mode = .finished) : Pulls t m none m
  | found {m last : Matcher ν} {found : Match ν} (hstep : m.step t = (some found, last)) :
      Pulls t m (some found) last
  | goOn {m between last : Matcher ν} {answer : Option (Match ν)} (hmode : m.mode ≠ .finished)
      (hstep : m.step t = (none, between)) (hrest : Pulls t between answer last) :
      Pulls t m answer last

namespace Matcher

theorem pulls_next (t : Target ν) (m : Matcher ν) : Pulls t m (m.next t).1 (m.next t).2 := by
  fun_induction next t m with
  | case1 m hdone => exact .finished hdone
  | case2 m hdone _ found after hstep => exact .found hstep
  | case3 m hdone _ after hstep _ ih => exact .goOn hdone hstep ih

theorem step_of_finished (t : Target ν) {m : Matcher ν} (h : m.mode = .finished) :
    (m.step t).2 = m := by
  rw [step, h]

/-- No more steps are left than the matcher costs. -/
theorem finished_of_cost_le {t : Target ν} {m : Matcher ν} {k : Nat} (h : m.cost t ≤ k) :
    (m.after t k).mode = .finished := by
  induction k generalizing m with
  | zero =>
    by_contra hmode
    have hlt := cost_step_lt t m hmode
    omega
  | succ k ih =>
    rw [Nat.add_comm, after_one_add]
    by_cases hmode : m.mode = .finished
    · rw [step_of_finished t hmode]
      apply ih
      rw [cost, hmode]
      exact Nat.zero_le k
    · have hlt := cost_step_lt t m hmode
      exact ih (by omega)

theorem isSome_pull_iff (t : Target ν) {m : Matcher ν} (h : m.LogsNested) (k : Nat) :
    (m.pull t k).isSome ↔ k < (m.results t).length := by
  rw [pull_eq_getElem? t h, results_eq_ahead t m h, Option.isSome_iff_ne_none,
    ne_eq, List.getElem?_eq_none_iff, Nat.not_le]

/-- The counts of a matcher are bounded by its lists of siblings. A list in memory has fewer than
half as many as a word can count, and then a word holds one more than any of the counts. -/
structure Bounded (m : Matcher ν) : Prop where
  /-- Where a cursor stands at each of its levels. -/
  position : ∀ w ∈ m.pending, ∀ level ∈ w.2.levels, level.index ≤ level.siblings.size ∧
    (level.siblings.size < UInt64.size / 2 → level.index + 1 < UInt64.size)
  /-- How often a repetition has been done, which is still to go on at its level. -/
  times : ∀ w ∈ m.pending, ∀ (before rest : List Goal) (inner : Pattern) (min : Nat)
    (max : Option Nat) (slot : Role) (count : Nat) (since : Option Nat),
    w.1 = before ++ .again inner min max slot count since :: rest →
      ∃ level, w.2.levels[ascents before]? = some level ∧ count ≤ level.siblings.size + 1 ∧
        (level.siblings.size < UInt64.size / 2 → count + 1 < UInt64.size)

theorem InStep.bounded {m : Matcher ν} (h : m.InStep) : m.Bounded where
  position w hw level hlevel := by
    have hle := (h w hw).index_le level hlevel
    exact ⟨hle, by omega⟩
  times w hw before rest inner min max slot count since hgoals := by
    have hfits := (h w hw).goals
    rw [hgoals] at hfits
    obtain ⟨level, hlevel, hbehind⟩ := hfits.exists_level
    have hle := (h w hw).index_le level (List.mem_of_getElem? hlevel)
    have hcount : count ≤ level.siblings.size + 1 := by
      cases since with
      | none =>
        have hnone : count = 0 := hbehind
        omega
      | some position =>
        obtain ⟨hposition, htimes⟩ := hbehind
        omega
    have hwords : UInt64.size = 18446744073709551616 := rfl
    exact ⟨level, hlevel, hcount, by omega⟩

end Matcher

/-- **Matching ends.** From every state of a run as many steps are left as it costs, at most; a pull
comes back; matches are found as long as there are results left, and then no more; and the counts
are bounded by the siblings. -/
theorem matching_ends (t : Target ν) (p : CheckedPattern) (siblings : List (Child ν)) (k : Nat) :
    let m := (Matcher.start p.elements siblings).after t k
    (m.after t (m.cost t)).mode = .finished ∧ Pulls t m (m.next t).1 (m.next t).2 ∧
      (∀ j, (m.pull t j).isSome ↔ j < (m.results t).length) ∧ m.Bounded := by
  intro m
  have hnested : m.LogsNested :=
    Matcher.logsNested_after t (Matcher.logsNested_start p.elements siblings) k
  have hinStep : m.InStep := Matcher.inStep_after t p.elements siblings k
  refine ⟨?_, m.pulls_next t, ?_, hinStep.bounded⟩
  · exact Matcher.finished_of_cost_le (Nat.le_refl _)
  · intro j
    exact Matcher.isSome_pull_iff t hnested j

/-- As many times as a word can count of what can match nothing. -/
def longRepetition : CheckedPattern where
  elements := [.repetition (.optional (.any none)) (UInt64.size - 1) none]
  captures := []
  checked := rfl

/-- At one sibling a second time is counted, and with it the long repetition ends. -/
theorem longRepetition_ends :
    let m := (Matcher.start longRepetition.elements [⟨.root, ()⟩]).after childless 5
    m.goals = [.find (.optional (.any none)) .root] ++
        .again (.optional (.any none)) (UInt64.size - 1) none .root 2 (some 1) :: [] ∧
      (m.after childless (m.cost childless)).mode = .finished ∧
      ∃ level, m.cursor.levels[0]? = some level ∧ 2 ≤ level.siblings.size + 1 := by
  intro m
  have hgoals : m.goals = [.find (.optional (.any none)) .root] ++
      .again (.optional (.any none)) (UInt64.size - 1) none .root 2 (some 1) :: [] := rfl
  obtain ⟨hfinished, -, -, hbounded⟩ := matching_ends childless longRepetition [⟨.root, ()⟩] 5
  obtain ⟨level, hlevel, hcount, -⟩ :=
    hbounded.times (m.goals, m.cursor) List.mem_cons_self _ _ _ _ _ _ _ _ hgoals
  exact ⟨hgoals, hfinished, level, hlevel, hcount⟩

end StructuralSearch
