import StructuralSearch.Proofs.Matching.Refinement

/-!
# Runs of a matcher

A run takes one step after the other. What a step can do to the forks and the log is said once, in
`stackStep`: it adds to the log, or leaves a fork where the matcher stands, or takes up the latest
fork.
-/
namespace StructuralSearch

variable {ν : Type}

namespace Matcher

/-- The matcher after `k` steps. -/
def after (t : Target ν) (m : Matcher ν) : Nat → Matcher ν
  | 0 => m
  | k + 1 => ((m.after t k).step t).2

theorem after_add (t : Target ν) (m : Matcher ν) (j k : Nat) :
    (m.after t j).after t k = m.after t (j + k) := by
  induction k with
  | zero => rfl
  | succ k ih =>
    rw [after, ih]
    rfl

theorem after_one_add (t : Target ν) (m : Matcher ν) (k : Nat) :
    m.after t (1 + k) = (m.step t).2.after t k :=
  (after_add t m 1 k).symm

/-- A property of the matcher before the first step that each step keeps. -/
theorem after_induct {t : Target ν} {m : Matcher ν} {motive : Matcher ν → Prop} (start : motive m)
    (step : ∀ m, motive m → motive (m.step t).2) (k : Nat) : motive (m.after t k) := by
  induction k with
  | zero => exact start
  | succ k ih => exact step _ ih

theorem logsNested_after (t : Target ν) {m : Matcher ν} (h : m.LogsNested) (k : Nat) :
    (m.after t k).LogsNested :=
  after_induct h (fun _ h => (ahead_step t h).1) k

/-- What work on a goal, with the `rest` of the goals after it, may make of the forks and the
log. -/
inductive Work (m : Matcher ν) (rest : List Goal) (forks : List (Fork ν)) (log : Log ν) : Prop where
  /-- It adds to the log. -/
  | adds (added : List (Binding ν)) (hforks : forks = m.forks)
      (hlog : log.toList = m.log.toList ++ added)
  /-- It leaves a fork. -/
  | leaves (branch : Branch) (hforks : forks = ⟨m.log.length, m.cursor, rest, branch⟩ :: m.forks)
      (hlog : log = m.log)

theorem Work.same (m : Matcher ν) (rest : List Goal) : Work m rest m.forks m.log :=
  .adds [] rfl (List.append_nil _).symm

theorem work_of_find {t : Target ν} {m next : Matcher ν} {slot : Role} {rest : List Goal}
    {p : Pattern} (h : m.find t slot rest p = some next) :
    Work m rest next.forks next.log := by
  cases p with
  | any name =>
    cases name with
    | none =>
      obtain ⟨child, -, rfl⟩ := Option.map_eq_some_iff.1 h
      exact .same m rest
    | some name =>
      obtain ⟨child, -, rfl⟩ := Option.map_eq_some_iff.1 h
      exact .adds _ rfl (Log.toList_add m.log _)
  | capture name inner =>
    cases h
    exact .same m rest
  | optional inner =>
    cases h
    exact .leaves .goOn rfl rfl
  | repetition inner min max =>
    cases h
    exact .same m rest
  | choice alternatives =>
    match alternatives, h with
    | [only], h =>
      cases h
      exact .same m rest
    | first :: second :: later, h =>
      cases h
      exact .leaves (.oneOf second later slot) rfl rfl
  | backreference name =>
    obtain ⟨child, -, h⟩ := Option.bind_eq_some_iff.1 h
    dsimp only at h
    split at h <;> cases h
    exact .same m rest
  | literal kind text slots =>
    obtain ⟨child, -, h⟩ := Option.bind_eq_some_iff.1 h
    split at h <;> cases h
    exact .same m rest
  | adapter construct inner =>
    cases h
    exact .same m rest

theorem work_of_perform {t : Target ν} {m next : Matcher ν} {rest : List Goal} {goal : Goal}
    (h : m.perform t rest goal = some next) :
    Work m rest next.forks next.log := by
  cases goal with
  | find p slot => exact work_of_find h
  | record name start =>
    cases h
    exact .adds _ rfl (Log.toList_addRun m.log name _)
  | again inner min max slot count since =>
    cases h
    unfold again
    dsimp only
    split
    · exact .same m rest
    · split
      · exact .same m rest
      · split
        · exact .leaves .goOn rfl rfl
        · exact .same m rest
  | expect construct start =>
    rw [perform] at h
    split at h <;> cases h
    exact .same m rest
  | leave =>
    obtain ⟨cursor, -, rfl⟩ := Option.map_eq_some_iff.1 h
    exact .same m rest

/-- What a step may do to the forks and the log. -/
inductive StackStep (m next : Matcher ν) : Prop where
  /-- It works on a goal, or does nothing to them. -/
  | works (rest : List Goal) (work : Work m rest next.forks next.log)
  /-- It takes up the latest fork, and puts it back when some of its ways are still left. -/
  | resumes (fork : Fork ν) (older : List (Fork ν)) (hmode : m.mode = .backward)
      (hforks : m.forks = fork :: older)
      (hleft : next.forks = older ∨ ∃ branch, next.forks = { fork with branch } :: older)
      (hlog : next.log = m.log.backTo fork.logLength) (hcursor : next.cursor = fork.cursor)

theorem stackStep_backtrack {m : Matcher ν} (hmode : m.mode = .backward) (steps : Nat) :
    StackStep m { m.backtrack with steps } := by
  unfold backtrack
  split
  · exact .works [] (.same m [])
  · rename_i fork older hforks
    dsimp only
    split
    · exact .resumes fork older hmode hforks (.inl rfl) rfl rfl
    · exact .resumes fork older hmode hforks (.inl rfl) rfl rfl
    · exact .resumes fork older hmode hforks (.inr ⟨_, rfl⟩) rfl rfl

theorem stackStep (t : Target ν) (m : Matcher ν) : StackStep m (m.step t).2 := by
  unfold step
  split
  · exact .works [] (.same m [])
  · rename_i hmode
    exact stackStep_backtrack hmode (m.steps + 1)
  · split
    · exact .works [] (.same m [])
    · rename_i goal rest hgoals
      split
      · rename_i next hnext
        have work := work_of_perform hnext
        exact .works rest work
      · exact .works [] (.same m [])

end Matcher

/-- Nodes without children, all alike. -/
def childless : Target Unit :=
  TreeView.exactly
    { kind := fun _ => "leaf"
      text := fun _ => none
      children := fun _ => []
      rank := fun _ => 0
      rank_lt := fun _ _ h => nomatch h }

end StructuralSearch
