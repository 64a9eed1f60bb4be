import StructuralSearch.Proofs.Matching.Run

/-!
# Goals and levels

The goals of a matcher are about the levels of its cursor: those up to the first `leave` about the
level of the cursor, those up to the next one about the level above, and so on to the top. What a
goal remembers of its level is a position there, which stays behind the cursor. Every step keeps
this, for the goals of the matcher and for those of each fork.
-/
namespace StructuralSearch

variable {ν : Type}

/-- The levels of a cursor, its own first. -/
def Cursor.levels (c : Cursor ν) : List (Level ν) :=
  c.level :: c.outer

namespace Goal

def goesUp : Goal → Bool
  | .leave => true
  | _ => false

/-- What a goal remembers of its level lies behind the position there. All times of a repetition but
the last one have matched a sibling, so there are no more of them than siblings before it. -/
def Behind (level : Level ν) : Goal → Prop
  | .find .. => True
  | .record _ start => start ≤ level.index
  | .again _ _ _ _ count none => count = 0
  | .again _ _ _ _ count (some position) => position ≤ level.index ∧ count ≤ position + 1
  | .expect _ start => start ≤ level.index
  | .leave => True

theorem Behind.mono {goal : Goal} {level level' : Level ν} (h : goal.Behind level)
    (hle : level.index ≤ level'.index) : goal.Behind level' := by
  cases goal with
  | find p slot => trivial
  | record name start => exact Nat.le_trans h hle
  | again inner min max slot count since =>
    cases since with
    | none => exact h
    | some position => exact ⟨Nat.le_trans h.1 hle, h.2⟩
  | expect construct start => exact Nat.le_trans h hle
  | leave => trivial

/-- The levels that are left after a goal. -/
def levelsAfter (goal : Goal) (levels : List (Level ν)) : List (Level ν) :=
  if goal.goesUp then levels.tail else levels

end Goal

/-- The number of levels that goals go up. -/
def ascents (goals : List Goal) : Nat :=
  goals.countP Goal.goesUp

/-- Each goal has its level, and what it remembers lies behind; the goals end at the top level. -/
def GoalsFit : List Goal → List (Level ν) → Prop
  | [], levels => levels.length = 1
  | goal :: rest, levels =>
    (∃ level ∈ levels.head?, goal.Behind level) ∧ GoalsFit rest (goal.levelsAfter levels)

namespace GoalsFit

/-- Moving on at a level keeps behind what was behind. -/
theorem moveOn {goals : List Goal} {level level' : Level ν} {outer : List (Level ν)}
    (h : GoalsFit goals (level :: outer)) (hle : level.index ≤ level'.index) :
    GoalsFit goals (level' :: outer) := by
  induction goals with
  | nil => exact h
  | cons goal rest ih =>
    obtain ⟨⟨own, hown, hbehind⟩, hrest⟩ := h
    obtain rfl := Option.some.inj hown
    refine ⟨⟨level', rfl, hbehind.mono hle⟩, ?_⟩
    rw [Goal.levelsAfter] at hrest ⊢
    cases hup : goal.goesUp with
    | true =>
      rw [hup] at hrest
      exact hrest
    | false =>
      rw [hup] at hrest
      exact ih hrest

/-- The level of a goal among others is as far up as those before it go. -/
theorem exists_level {before rest : List Goal} {goal : Goal} {levels : List (Level ν)}
    (h : GoalsFit (before ++ goal :: rest) levels) :
    ∃ level, levels[ascents before]? = some level ∧ goal.Behind level := by
  induction before generalizing levels with
  | nil =>
    obtain ⟨⟨level, hlevel, hbehind⟩, -⟩ := h
    refine ⟨level, ?_, hbehind⟩
    rw [ascents, List.countP_nil, ← List.head?_eq_getElem?]
    exact hlevel
  | cons first before ih =>
    obtain ⟨level, hlevel, hbehind⟩ := ih h.2
    refine ⟨level, ?_, hbehind⟩
    rw [← hlevel, Goal.levelsAfter, ascents, List.countP_cons]
    cases first.goesUp with
    | true => rw [if_pos rfl, if_pos rfl, List.getElem?_tail]; rfl
    | false => rfl

/-- The goals go up to the top level. -/
theorem length_levels {goals : List Goal} {levels : List (Level ν)} (h : GoalsFit goals levels) :
    levels.length = ascents goals + 1 := by
  induction goals generalizing levels with
  | nil => exact h
  | cons goal rest ih =>
    obtain ⟨⟨level, hlevel, -⟩, hrest⟩ := h
    obtain ⟨outer, rfl⟩ := List.head?_eq_some_iff.1 hlevel
    have hlength := ih hrest
    rw [Goal.levelsAfter] at hlength
    rw [ascents, List.countP_cons]
    cases hup : goal.goesUp with
    | true =>
      rw [hup] at hlength
      exact congrArg (· + 1) hlength
    | false =>
      rw [hup] at hlength
      exact hlength

/-- The slots of a literal are about the level below, which is left after them. -/
theorem slots {rest : List Goal} {levels : List (Level ν)} (h : GoalsFit rest levels)
    (slots : List (Role × Pattern)) (below : Level ν) :
    GoalsFit (slots.map (fun s => .find s.2 s.1) ++ .leave :: rest) (below :: levels) := by
  induction slots with
  | nil => exact ⟨⟨below, rfl, trivial⟩, h⟩
  | cons s slots ih => exact ⟨⟨below, rfl, trivial⟩, ih⟩

end GoalsFit

/-- Goals fit the cursor that they start from. A node that has been entered is a sibling of the
level above. -/
structure Fits (goals : List Goal) (c : Cursor ν) : Prop where
  inside : c.level.index ≤ c.level.siblings.size
  entered : ∀ level ∈ c.outer, level.index < level.siblings.size
  goals : GoalsFit goals c.levels

namespace Fits

variable {goals rest : List Goal} {goal : Goal} {c : Cursor ν}

theorem index_le (h : Fits goals c) : ∀ level ∈ c.levels, level.index ≤ level.siblings.size :=
  List.forall_mem_cons.2 ⟨h.inside, fun level hlevel => Nat.le_of_lt (h.entered level hlevel)⟩

theorem cons (h : Fits rest c) (hstays : goal.goesUp = false) (hbehind : goal.Behind c.level) :
    Fits (goal :: rest) c where
  inside := h.inside
  entered := h.entered
  goals := by
    refine ⟨⟨c.level, rfl, hbehind⟩, ?_⟩
    rw [Goal.levelsAfter, hstays]
    exact h.goals

theorem tail (h : Fits (goal :: rest) c) (hstays : goal.goesUp = false) : Fits rest c where
  inside := h.inside
  entered := h.entered
  goals := by
    have hrest := h.goals.2
    rw [Goal.levelsAfter, hstays] at hrest
    exact hrest

theorem behind (h : Fits (goal :: rest) c) : goal.Behind c.level := by
  obtain ⟨⟨level, hlevel, hbehind⟩, -⟩ := h.goals
  obtain rfl := Option.some.inj hlevel
  exact hbehind

theorem find (h : Fits rest c) (p : Pattern) (slot : Role) : Fits (.find p slot :: rest) c :=
  h.cons rfl trivial

/-- Past the current node. -/
theorem advance (h : Fits rest c) (hlt : c.level.index < c.level.siblings.size) :
    Fits rest c.advance where
  inside := hlt
  entered := h.entered
  goals := h.goals.moveOn (Nat.le_succ _)

/-- Below the current node. -/
theorem enter (h : Fits rest c) (hlt : c.level.index < c.level.siblings.size)
    (slots : List (Role × Pattern)) (children : List (Child ν)) :
    Fits (slots.map (fun s => .find s.2 s.1) ++ .leave :: rest) (c.enter children) where
  inside := Nat.zero_le _
  entered := List.forall_mem_cons.2 ⟨hlt, h.entered⟩
  goals := h.goals.slots slots _

/-- Up again, past the node whose children have been matched. -/
theorem leave {above : Cursor ν} (h : Fits (.leave :: rest) c) (habove : c.leave? = some above) :
    Fits rest above := by
  obtain ⟨level, outer⟩ := c
  unfold Cursor.leave? at habove
  split at habove
  · rename_i next further houter
    dsimp only at houter
    subst houter
    split at habove
    · cases habove
      obtain ⟨hnext, hfurther⟩ := List.forall_mem_cons.1 h.entered
      exact ⟨hnext, hfurther, GoalsFit.moveOn h.goals.2 (Nat.le_succ _)⟩
    · cases habove
  · cases habove

end Fits

namespace Matcher

/-- Goals still ahead and the cursor that they start from: those of the matcher, and those of each
fork. -/
def pending (m : Matcher ν) : List (List Goal × Cursor ν) :=
  (m.goals, m.cursor) :: m.forks.map fun fork => (fork.goals, fork.cursor)

theorem forall_mem_pending_iff {m : Matcher ν} {holds : List Goal → Cursor ν → Prop} :
    (∀ w ∈ m.pending, holds w.1 w.2) ↔
      holds m.goals m.cursor ∧ ∀ fork ∈ m.forks, holds fork.goals fork.cursor := by
  rw [pending, List.forall_mem_cons, List.forall_mem_map]

/-- A fork is left by a goal that stays at its level. -/
theorem goesUp_eq_false_of_leaves {t : Target ν} {m next : Matcher ν} {goal : Goal}
    {rest : List Goal} (hnext : m.perform t rest goal = some next) {fork : Fork ν}
    (hforks : next.forks = fork :: m.forks) : goal.goesUp = false := by
  cases goal with
  | leave =>
    obtain ⟨above, -, rfl⟩ := Option.map_eq_some_iff.1 hnext
    exact absurd hforks.symm (List.cons_ne_self _ _)
  | _ => rfl

section

variable {t : Target ν} {m : Matcher ν} {holds later : List Goal → Cursor ν → Prop}

theorem pending_backtrack (h : ∀ w ∈ m.pending, holds w.1 w.2)
    (hfind : ∀ rest c p slot, holds rest c → holds (.find p slot :: rest) c) :
    ∀ w ∈ m.backtrack.pending, holds w.1 w.2 := by
  unfold backtrack
  split
  · exact h
  · rename_i fork older hforks
    obtain ⟨-, hpending⟩ := forall_mem_pending_iff.1 h
    rw [hforks] at hpending
    obtain ⟨hfork, holder⟩ := List.forall_mem_cons.1 hpending
    dsimp only
    split
    · exact forall_mem_pending_iff.2 ⟨hfork, holder⟩
    · exact forall_mem_pending_iff.2 ⟨hfind _ _ _ _ hfork, holder⟩
    · exact forall_mem_pending_iff.2
        ⟨hfind _ _ _ _ hfork, List.forall_mem_cons.2 ⟨hfork, holder⟩⟩

/-- A step keeps what holds of goals and cursors when work on a goal does. -/
theorem pending_step (h : ∀ w ∈ m.pending, holds w.1 w.2)
    (hlater : ∀ goals c, holds goals c → later goals c)
    (hfind : ∀ rest c p slot, later rest c → later (.find p slot :: rest) c)
    (htail : ∀ goal rest c, goal.goesUp = false → holds (goal :: rest) c → holds rest c)
    (hperform : ∀ goal rest next, m.mode = .forward → m.goals = goal :: rest →
      m.perform t rest goal = some next → holds (goal :: rest) m.cursor →
      later next.goals next.cursor) :
    ∀ w ∈ (m.step t).2.pending, later w.1 w.2 := by
  have hkept : ∀ w ∈ m.pending, later w.1 w.2 := fun w hw => hlater _ _ (h w hw)
  unfold step
  split
  · exact hkept
  · exact pending_backtrack hkept hfind
  · rename_i hmode
    split
    · exact hkept
    · rename_i goal rest hgoals
      split
      · rename_i next hnext
        obtain ⟨hown, hforks⟩ := forall_mem_pending_iff.1 h
        rw [hgoals] at hown
        refine forall_mem_pending_iff.2 ⟨hperform goal rest next hmode hgoals hnext hown, ?_⟩
        have hforks' : ∀ fork ∈ m.forks, later fork.goals fork.cursor :=
          fun fork hfork => hlater _ _ (hforks fork hfork)
        show ∀ fork ∈ next.forks, later fork.goals fork.cursor
        cases work_of_perform hnext with
        | adds added hsame hlog =>
          rw [hsame]
          exact hforks'
        | leaves branch hleft hlog =>
          rw [hleft]
          have hstays := goesUp_eq_false_of_leaves hnext hleft
          exact List.forall_mem_cons.2 ⟨hlater _ _ (htail _ _ _ hstays hown), hforks'⟩
      · exact hkept

end

/-- All goals ahead fit their cursors. -/
def InStep (m : Matcher ν) : Prop :=
  ∀ w ∈ m.pending, Fits w.1 w.2

theorem fits_find {t : Target ν} {m next : Matcher ν} {slot : Role} {rest : List Goal} {p : Pattern}
    (h : Fits rest m.cursor) (hnext : m.find t slot rest p = some next) :
    Fits next.goals next.cursor := by
  cases p with
  | any name =>
    cases name <;>
    · obtain ⟨child, hchild, rfl⟩ := Option.map_eq_some_iff.1 hnext
      exact h.advance (lt_length_of_fitting? hchild)
  | capture name inner =>
    cases hnext
    exact (h.cons rfl (Nat.le_refl _)).find inner slot
  | optional inner =>
    cases hnext
    exact h.find inner slot
  | repetition inner min max =>
    cases hnext
    exact h.cons rfl rfl
  | choice alternatives =>
    match alternatives, hnext with
    | [only], hnext =>
      cases hnext
      exact h.find only slot
    | first :: second :: later, hnext =>
      cases hnext
      exact h.find first slot
  | backreference name =>
    obtain ⟨child, hchild, hnext⟩ := Option.bind_eq_some_iff.1 hnext
    dsimp only at hnext
    split at hnext <;> cases hnext
    exact h.advance (lt_length_of_fitting? hchild)
  | literal kind text slots =>
    obtain ⟨child, hchild, hnext⟩ := Option.bind_eq_some_iff.1 hnext
    split at hnext <;> cases hnext
    exact h.enter (lt_length_of_fitting? hchild) slots _
  | adapter construct inner =>
    cases hnext
    exact (h.cons rfl (Nat.le_refl _)).find inner slot

/-- Another time of a repetition is counted only when the last one got further. -/
theorem fits_again {m : Matcher ν} {inner : Pattern} {min : Nat} {max : Option Nat} {slot : Role}
    {count : Nat} {since : Option Nat} {rest : List Goal}
    (h : Fits (.again inner min max slot count since :: rest) m.cursor) :
    Fits (m.again inner min max slot count since rest).goals
      (m.again inner min max slot count since rest).cursor := by
  have hrest : Fits rest m.cursor := h.tail rfl
  have hbehind := h.behind
  unfold again
  dsimp only
  split
  · exact hrest
  · rename_i hmoved
    have hcount : count ≤ m.cursor.level.index := by
      cases since with
      | none =>
        have hnone : count = 0 := hbehind
        omega
      | some position =>
        have hne : position ≠ m.cursor.level.index := fun he => hmoved (congrArg some he)
        obtain ⟨hposition, htimes⟩ := hbehind
        omega
    have hagain : Goal.Behind m.cursor.level
        (.again inner min max slot (count + 1) (some m.cursor.level.index)) :=
      ⟨Nat.le_refl _, Nat.succ_le_succ hcount⟩
    have honce := (hrest.cons rfl hagain).find inner slot
    split
    · exact honce
    · split
      · exact honce
      · exact hrest

theorem fits_perform {t : Target ν} {m next : Matcher ν} {goal : Goal} {rest : List Goal}
    (h : Fits (goal :: rest) m.cursor) (hnext : m.perform t rest goal = some next) :
    Fits next.goals next.cursor := by
  cases goal with
  | find p slot => exact fits_find (h.tail rfl) hnext
  | record name start =>
    cases hnext
    exact h.tail rfl
  | again inner min max slot count since =>
    cases hnext
    exact fits_again h
  | expect construct start =>
    rw [perform] at hnext
    split at hnext <;> cases hnext
    exact h.tail rfl
  | leave =>
    obtain ⟨above, habove, rfl⟩ := Option.map_eq_some_iff.1 hnext
    exact h.leave habove

/-- Each step keeps goals and levels in step. -/
theorem inStep_step (t : Target ν) (m : Matcher ν) (h : m.InStep) : (m.step t).2.InStep :=
  pending_step h (fun _ _ hfits => hfits) (fun _ _ p slot hfits => hfits.find p slot)
    (fun _ _ _ hstays hfits => hfits.tail hstays) fun _ _ _ _ _ hnext hfits => fits_perform hfits hnext

theorem inStep_start (elements : List Pattern) (siblings : List (Child ν)) :
    (start elements siblings).InStep := by
  refine forall_mem_pending_iff.2 ⟨⟨Nat.zero_le _, List.forall_mem_nil _, ?_⟩, List.forall_mem_nil _⟩
  show GoalsFit (elements.map fun p => .find p .root) _
  induction elements with
  | nil => rfl
  | cons p elements ih => exact ⟨⟨_, rfl, trivial⟩, ih⟩

theorem inStep_after (t : Target ν) (elements : List Pattern) (siblings : List (Child ν)) (k : Nat) :
    ((start elements siblings).after t k).InStep :=
  after_induct (inStep_start elements siblings) (inStep_step t) k

end Matcher
end StructuralSearch
