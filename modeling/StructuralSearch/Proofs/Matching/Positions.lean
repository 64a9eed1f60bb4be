import StructuralSearch.Proofs.Matching.Levels

/-!
# Positions that goals remember

A goal that remembers a position has it from the cursor that there was when the goal was put on the
list. It is about the siblings among which the cursor stood, and when its turn comes the cursor is
among them again, at that position or further on. So a goal that leaves always has a level to leave
to, what was matched since a position is always a part of the siblings, and when no goal is left the
cursor is at the top level.
-/
namespace StructuralSearch

variable {ν : Type}

/-- The position that a goal remembers, if it remembers one. -/
def Goal.position? : Goal → Option Nat
  | .find .. | .leave => none
  | .record _ start | .expect _ start => some start
  | .again _ _ _ _ _ since => since

/-- The cursor stands among the siblings of the first of the levels, below the others. -/
def Cursor.IsAmong (c : Cursor ν) : List (Level ν) → Prop
  | [] => False
  | level :: outer => c.level.siblings = level.siblings ∧ c.outer = outer

/-- The siblings at each level of a cursor, its own first. -/
def Cursor.rows (c : Cursor ν) : List (Array (Child ν)) :=
  c.levels.map (·.siblings)

theorem Cursor.getLast?_rows_enter (c : Cursor ν) (children : List (Child ν)) :
    (c.enter children).rows.getLast? = c.rows.getLast? :=
  List.getLast?_cons_cons

theorem Cursor.getLast?_rows_of_leave? {c above : Cursor ν} (h : c.leave? = some above) :
    above.rows.getLast? = c.rows.getLast? := by
  unfold leave? at h
  split at h
  · rename_i next further houter
    split at h
    · cases h
      rw [rows, rows, levels, levels, houter]
      exact List.getLast?_cons_cons.symm
    · cases h
  · cases h

/-! ## Where positions were noted -/

/-- Each position that a goal remembers was noted with a cursor that stood there, among the siblings
that the goal is about. -/
def GoalsNoted (noted : Goal → Cursor ν → Prop) : List Goal → List (Level ν) → Prop
  | [], _ => True
  | goal :: rest, levels =>
    (∀ position ∈ goal.position?, ∃ there, noted goal there ∧ there.IsAmong levels ∧
      there.level.index = position) ∧ GoalsNoted noted rest (goal.levelsAfter levels)

namespace GoalsNoted

variable {noted noted' : Goal → Cursor ν → Prop} {goals rest : List Goal} {goal : Goal}
  {levels : List (Level ν)}

theorem imp (himp : ∀ goal there, noted goal there → noted' goal there)
    (h : GoalsNoted noted goals levels) : GoalsNoted noted' goals levels := by
  induction goals generalizing levels with
  | nil => trivial
  | cons goal rest ih =>
    refine ⟨fun position hposition => ?_, ih h.2⟩
    obtain ⟨there, hnoted, hplace⟩ := h.1 position hposition
    exact ⟨there, himp goal there hnoted, hplace⟩

/-- Moving on at a level leaves its siblings as they are. -/
theorem moveOn {level level' : Level ν} {outer : List (Level ν)}
    (h : GoalsNoted noted goals (level :: outer)) (hsame : level'.siblings = level.siblings) :
    GoalsNoted noted goals (level' :: outer) := by
  induction goals with
  | nil => trivial
  | cons goal rest ih =>
    obtain ⟨hown, hrest⟩ := h
    refine ⟨fun position hposition => ?_, ?_⟩
    · obtain ⟨there, hnoted, hamong, hindex⟩ := hown position hposition
      exact ⟨there, hnoted, ⟨hamong.1.trans hsame.symm, hamong.2⟩, hindex⟩
    · rw [Goal.levelsAfter] at hrest ⊢
      cases hup : goal.goesUp with
      | true =>
        rw [hup] at hrest
        exact hrest
      | false =>
        rw [hup] at hrest
        exact ih hrest

theorem cons (h : GoalsNoted noted rest levels) (hstays : goal.goesUp = false)
    (hgoal : ∀ position ∈ goal.position?, ∃ there, noted goal there ∧ there.IsAmong levels ∧
      there.level.index = position) : GoalsNoted noted (goal :: rest) levels := by
  refine ⟨hgoal, ?_⟩
  rw [Goal.levelsAfter, hstays]
  exact h

theorem tail (h : GoalsNoted noted (goal :: rest) levels) (hstays : goal.goesUp = false) :
    GoalsNoted noted rest levels := by
  have hrest := h.2
  rw [Goal.levelsAfter, hstays] at hrest
  exact hrest

theorem slots (h : GoalsNoted noted rest levels) (slots : List (Role × Pattern))
    (below : Level ν) :
    GoalsNoted noted (slots.map (fun s => .find s.2 s.1) ++ .leave :: rest) (below :: levels) := by
  induction slots with
  | nil => exact ⟨nofun, h⟩
  | cons s slots ih => exact ⟨nofun, ih⟩

/-- The siblings that a goal among others is about are as far up as those before it go. -/
theorem exists_there {before : List Goal} (h : GoalsNoted noted (before ++ goal :: rest) levels)
    {position : Nat} (hposition : goal.position? = some position) :
    ∃ there, noted goal there ∧ there.IsAmong (levels.drop (ascents before)) ∧
      there.level.index = position := by
  induction before generalizing levels with
  | nil => exact h.1 position hposition
  | cons first before ih =>
    obtain ⟨there, hnoted, hamong, hindex⟩ := ih h.2
    refine ⟨there, hnoted, ?_, hindex⟩
    rw [Goal.levelsAfter] at hamong
    rw [ascents, List.countP_cons]
    cases hup : first.goesUp with
    | true =>
      rw [hup, if_pos rfl, List.drop_tail] at hamong
      exact hamong
    | false =>
      rw [hup] at hamong
      exact hamong

end GoalsNoted

theorem Goal.Behind.position_le {goal : Goal} {level : Level ν} (h : goal.Behind level)
    {position : Nat} (hposition : goal.position? = some position) : position ≤ level.index := by
  cases goal with
  | find p slot => cases hposition
  | record name start =>
    cases hposition
    exact h
  | again inner min max slot count since =>
    cases hposition
    exact h.1
  | expect construct start =>
    cases hposition
    exact h
  | leave => cases hposition

/-- The goal is about the level of the cursor, and remembers no other position than the one
there. -/
def Goal.IsNewAt (level : Level ν) (goal : Goal) : Prop :=
  goal.goesUp = false ∧ ∀ position ∈ goal.position?, level.index = position

theorem Goal.isNewAt_find (level : Level ν) (p : Pattern) (slot : Role) :
    (Goal.find p slot).IsNewAt level :=
  ⟨rfl, nofun⟩

namespace Matcher

/-! ## What work on a goal does to goals and cursor -/

/-- What work on a goal, with the `rest` of the goals after it, may make of the goals and the
cursor. -/
inductive Move (m : Matcher ν) (goal : Goal) (rest : List Goal) (next : Matcher ν) : Prop
  /-- It puts new goals on the list. -/
  | stays (new : List Goal) (hstays : goal.goesUp = false) (hgoals : next.goals = new ++ rest)
      (hnew : ∀ g ∈ new, g.IsNewAt m.cursor.level) (hcursor : next.cursor = m.cursor)
  | passes (hstays : goal.goesUp = false) (hgoals : next.goals = rest)
      (hcursor : next.cursor = m.cursor.advance)
  | enters (slots : List (Role × Pattern)) (children : List (Child ν))
      (hstays : goal.goesUp = false)
      (hgoals : next.goals = slots.map (fun s => .find s.2 s.1) ++ .leave :: rest)
      (hcursor : next.cursor = m.cursor.enter children)
  | leaves (hgoal : goal = .leave) (hgoals : next.goals = rest)
      (hcursor : m.cursor.leave? = some next.cursor)

theorem Move.one {m next : Matcher ν} {goal new : Goal} {rest : List Goal}
    (hstays : goal.goesUp = false) (hgoals : next.goals = new :: rest)
    (hnew : new.IsNewAt m.cursor.level) (hcursor : next.cursor = m.cursor) :
    Move m goal rest next :=
  .stays [new] hstays hgoals (List.forall_mem_singleton.2 hnew) hcursor

/-- A pattern is to be found, and a goal after it remembers where the cursor is. -/
theorem Move.two {m next : Matcher ν} {goal second : Goal} {rest : List Goal} {p : Pattern}
    {slot : Role} (hstays : goal.goesUp = false)
    (hgoals : next.goals = .find p slot :: second :: rest)
    (hsecond : second.goesUp = false) (hposition : second.position? = some m.cursor.level.index)
    (hcursor : next.cursor = m.cursor) : Move m goal rest next := by
  refine .stays [.find p slot, second] hstays hgoals ?_ hcursor
  refine List.forall_mem_cons.2 ⟨Goal.isNewAt_find _ p slot, List.forall_mem_singleton.2 ?_⟩
  exact ⟨hsecond, fun position h => Option.some.inj (hposition.symm.trans h)⟩

theorem move_of_find {t : Target ν} {m next : Matcher ν} {slot : Role} {rest : List Goal}
    {p : Pattern} (h : m.find t slot rest p = some next) : Move m (.find p slot) rest next := by
  cases p with
  | any name =>
    cases name <;>
    · obtain ⟨child, -, rfl⟩ := Option.map_eq_some_iff.1 h
      exact .passes rfl rfl rfl
  | capture name inner =>
    cases h
    exact .two rfl rfl rfl rfl rfl
  | optional inner =>
    cases h
    exact .one rfl rfl (Goal.isNewAt_find _ inner slot) rfl
  | repetition inner min max =>
    cases h
    exact .one rfl rfl ⟨rfl, nofun⟩ rfl
  | choice alternatives =>
    match alternatives, h with
    | [only], h =>
      cases h
      exact .one rfl rfl (Goal.isNewAt_find _ only slot) rfl
    | first :: second :: later, h =>
      cases h
      exact .one rfl rfl (Goal.isNewAt_find _ first slot) rfl
  | backreference name =>
    obtain ⟨child, -, h⟩ := Option.bind_eq_some_iff.1 h
    dsimp only at h
    split at h <;> cases h
    exact .passes rfl rfl rfl
  | literal kind text slots =>
    obtain ⟨child, -, h⟩ := Option.bind_eq_some_iff.1 h
    split at h <;> cases h
    exact .enters slots _ rfl rfl rfl
  | adapter construct inner =>
    cases h
    exact .two rfl rfl rfl rfl rfl

theorem Move.done {m next : Matcher ν} {goal : Goal} {rest : List Goal}
    (hstays : goal.goesUp = false) (hgoals : next.goals = rest) (hcursor : next.cursor = m.cursor) :
    Move m goal rest next :=
  .stays [] hstays hgoals (List.forall_mem_nil _) hcursor

theorem move_of_again (m : Matcher ν) (inner : Pattern) (min : Nat) (max : Option Nat)
    (slot : Role) (count : Nat) (since : Option Nat) (rest : List Goal) :
    Move m (.again inner min max slot count since) rest
      (m.again inner min max slot count since rest) := by
  unfold again
  dsimp only
  split
  · exact .done rfl rfl rfl
  · split
    · exact .two rfl rfl rfl rfl rfl
    · split
      · exact .two rfl rfl rfl rfl rfl
      · exact .done rfl rfl rfl

theorem move_of_perform {t : Target ν} {m next : Matcher ν} {rest : List Goal} {goal : Goal}
    (h : m.perform t rest goal = some next) : Move m goal rest next := by
  cases goal with
  | find p slot => exact move_of_find h
  | record name start =>
    cases h
    exact .done rfl rfl rfl
  | again inner min max slot count since =>
    cases h
    exact move_of_again m inner min max slot count since rest
  | expect construct start =>
    rw [perform] at h
    split at h <;> cases h
    exact .done rfl rfl rfl
  | leave =>
    obtain ⟨cursor, hcursor, rfl⟩ := Option.map_eq_some_iff.1 h
    exact .leaves rfl rfl hcursor

/-! ## Along a run -/

/-- What is known of goals and their cursor, in a run on the siblings, beyond that they fit. -/
structure Traced (noted : Goal → Cursor ν → Prop) (siblings : List (Child ν)) (goals : List Goal)
    (c : Cursor ν) : Prop where
  goals : GoalsNoted noted goals c.levels
  top : c.rows.getLast? = some siblings.toArray

section

variable {noted later : Goal → Cursor ν → Prop} {siblings : List (Child ν)} {m next : Matcher ν}
  {goal : Goal} {rest : List Goal}

theorem goalsNoted_append {new : List Goal} {c : Cursor ν} (hrest : GoalsNoted noted rest c.levels)
    (hnew : ∀ g ∈ new, g.IsNewAt c.level ∧ noted g c) : GoalsNoted noted (new ++ rest) c.levels := by
  induction new with
  | nil => exact hrest
  | cons g new ih =>
    obtain ⟨⟨hg, hnoted⟩, hnew⟩ := List.forall_mem_cons.1 hnew
    exact (ih hnew).cons hg.1 fun position hposition =>
      ⟨c, hnoted, ⟨rfl, rfl⟩, hg.2 position hposition⟩

theorem goalsNoted_leave {c above : Cursor ν} (h : GoalsNoted noted (.leave :: rest) c.levels)
    (habove : c.leave? = some above) : GoalsNoted noted rest above.levels := by
  unfold Cursor.leave? at habove
  split at habove
  · rename_i next further houter
    split at habove
    · cases habove
      have hrest := h.2
      rw [Goal.levelsAfter, Cursor.levels, houter] at hrest
      exact GoalsNoted.moveOn hrest rfl
    · cases habove
  · cases habove

/-- Work on a goal keeps the trace, which gets the goals that it puts on the list. -/
theorem Traced.move (h : Traced noted siblings (goal :: rest) m.cursor) (hmove : Move m goal rest next)
    (hlater : ∀ goal there, noted goal there → later goal there)
    (hnew : ∀ new, next.goals = new ++ rest → ∀ g ∈ new, later g m.cursor) :
    Traced later siblings next.goals next.cursor := by
  have hgoals := h.goals.imp hlater
  cases hmove with
  | stays new hstays hnext hadded hcursor =>
    refine ⟨?_, hcursor ▸ h.top⟩
    rw [hnext, hcursor]
    exact goalsNoted_append (hgoals.tail hstays) fun g hg => ⟨hadded g hg, hnew new hnext g hg⟩
  | passes hstays hnext hcursor =>
    rw [hnext, hcursor]
    exact ⟨(hgoals.tail hstays).moveOn rfl, h.top⟩
  | enters slots children hstays hnext hcursor =>
    rw [hnext, hcursor]
    exact ⟨(hgoals.tail hstays).slots slots _, (Cursor.getLast?_rows_enter _ _).trans h.top⟩
  | leaves hgoal hnext hcursor =>
    rw [hgoal] at hgoals
    rw [hnext]
    exact ⟨goalsNoted_leave hgoals hcursor, (Cursor.getLast?_rows_of_leave? hcursor).trans h.top⟩

end

theorem step_of_perform {t : Target ν} {m next : Matcher ν} {goal : Goal} {rest : List Goal}
    (hmode : m.mode = .forward) (hgoals : m.goals = goal :: rest)
    (hnext : m.perform t rest goal = some next) :
    m.step t = (none, { next with steps := m.steps + 1 }) := by
  unfold step
  rw [hmode, hgoals]
  dsimp only
  rw [hnext]

/-- One of the first `k` steps put the goal on the list, in place of another one, when the cursor
was there. -/
def PutOn (t : Target ν) (m : Matcher ν) (k : Nat) (goal : Goal) (there : Cursor ν) : Prop :=
  ∃ j < k, (m.after t j).cursor = there ∧ ∃ done new rest, (m.after t j).goals = done :: rest ∧
    (m.after t (j + 1)).goals = new ++ rest ∧ goal ∈ new

theorem PutOn.succ {t : Target ν} {m : Matcher ν} {k : Nat} {goal : Goal} {there : Cursor ν}
    (h : PutOn t m k goal there) : PutOn t m (k + 1) goal there := by
  obtain ⟨j, hj, hput⟩ := h
  exact ⟨j, Nat.lt_succ_of_lt hj, hput⟩

theorem traced_start (noted : Goal → Cursor ν → Prop) (elements : List Pattern)
    (siblings : List (Child ν)) :
    ∀ w ∈ (start elements siblings).pending, Traced noted siblings w.1 w.2 := by
  refine forall_mem_pending_iff.2 ⟨⟨?_, rfl⟩, List.forall_mem_nil _⟩
  show GoalsNoted noted (elements.map fun p => .find p .root) _
  induction elements with
  | nil => trivial
  | cons p elements ih => exact ⟨nofun, ih⟩

theorem traced_after (t : Target ν) (elements : List Pattern) (siblings : List (Child ν)) (k : Nat) :
    ∀ w ∈ ((start elements siblings).after t k).pending,
      Traced (PutOn t (start elements siblings) k) siblings w.1 w.2 := by
  induction k with
  | zero => exact traced_start _ elements siblings
  | succ k ih =>
    refine pending_step ih ?_ ?_ ?_ ?_
    · intro goals c h
      exact ⟨h.goals.imp fun _ _ => PutOn.succ, h.top⟩
    · intro rest c p slot h
      exact ⟨h.goals.cons rfl nofun, h.top⟩
    · intro goal rest c hstays h
      exact ⟨h.goals.tail hstays, h.top⟩
    · intro goal rest next hmode hgoals hnext h
      refine h.move (move_of_perform hnext) (fun _ _ => PutOn.succ) fun new hnew g hg => ?_
      refine ⟨k, Nat.lt_succ_self k, rfl, goal, new, rest, hgoals, ?_, hg⟩
      rw [after, step_of_perform hmode hgoals hnext]
      exact hnew

end Matcher

/-- Goals are about the levels of the cursor that they start from. -/
structure AtTheirLevels (noted : Goal → Cursor ν → Prop) (siblings : List (Child ν))
    (goals : List Goal) (c : Cursor ν) : Prop where
  /-- They go up as many levels as the cursor is below the top. -/
  depth : ascents goals = c.outer.length
  /-- The top level is that of the siblings that are matched. -/
  top : c.rows.getLast? = some siblings.toArray
  inside : ∀ level ∈ c.levels, level.index ≤ level.siblings.size
  /-- A position that a goal remembers was noted among the siblings where the cursor will be when the
  goals before it are done, and the cursor has not gone back there. -/
  positions : ∀ before goal rest position, goals = before ++ goal :: rest →
    goal.position? = some position → ∃ there level outer, noted goal there ∧
      c.levels.drop (ascents before) = level :: outer ∧ there.level.siblings = level.siblings ∧
      there.outer = outer ∧ there.level.index = position ∧ position ≤ level.index

theorem Fits.atTheirLevels {goals : List Goal} {c : Cursor ν} (h : Fits goals c)
    {noted : Goal → Cursor ν → Prop} {siblings : List (Child ν)}
    (htraced : Matcher.Traced noted siblings goals c) : AtTheirLevels noted siblings goals c where
  depth := (Nat.succ.inj h.goals.length_levels).symm
  top := htraced.top
  inside := h.index_le
  positions := by
    rintro before goal rest position rfl hposition
    obtain ⟨there, hnoted, hamong, hindex⟩ := htraced.goals.exists_there hposition
    obtain ⟨level, hlevel, hbehind⟩ := h.goals.exists_level
    rw [← List.head?_drop] at hlevel
    obtain ⟨outer, hdrop⟩ := List.head?_eq_some_iff.1 hlevel
    rw [hdrop] at hamong
    exact ⟨there, level, outer, hnoted, hdrop, hamong.1, hamong.2, hindex,
      hbehind.position_le hposition⟩

theorem Level.passedSince_eq_nil_iff {l : Level ν} (h : l.index ≤ l.siblings.size) {start : Nat} :
    l.passedSince start = [] ↔ l.index ≤ start := by
  rw [passedSince, Array.toList_eq_nil_iff, ← Array.size_eq_zero_iff, Array.size_extract]
  omega

theorem Cursor.isSome_leave?_iff {c : Cursor ν} (h : c.outer ≠ []) :
    c.leave?.isSome ↔ c.level.atEnd := by
  unfold leave?
  split
  · cases c.level.atEnd <;> simp
  · rename_i houter
    exact absurd houter h

/-- **Goals keep to their levels.** In every state of a run the goals ahead, those of the matcher
and those of each fork, are about the levels of their cursors, with positions that earlier steps
took there. So a goal that leaves finds a level above, and fails only if siblings are left; a
position that a goal asks for is one among the siblings, and not beyond the cursor; and with no goal
left the cursor is at the top level. -/
theorem goals_at_their_levels (t : Target ν) (p : CheckedPattern) (siblings : List (Child ν))
    (k : Nat) :
    let start := Matcher.start p.elements siblings
    let m := start.after t k
    (∀ w ∈ m.pending, AtTheirLevels (start.PutOn t k) siblings w.1 w.2) ∧
    (∀ rest, m.goals = .leave :: rest →
      m.cursor.outer ≠ [] ∧ (m.cursor.leave?.isSome ↔ m.cursor.level.atEnd)) ∧
    (∀ goal rest position, m.goals = goal :: rest → goal.position? = some position →
      position ≤ m.cursor.level.index ∧ m.cursor.level.index ≤ m.cursor.level.siblings.size ∧
      (m.cursor.level.passedSince position = [] ↔ position = m.cursor.level.index)) ∧
    (m.goals = [] → m.cursor.outer = [] ∧ m.cursor.level.siblings = siblings.toArray) := by
  intro start m
  have hfits : m.InStep := Matcher.inStep_after t p.elements siblings k
  have htraced := Matcher.traced_after t p.elements siblings k
  have hlevels : ∀ w ∈ m.pending, AtTheirLevels (start.PutOn t k) siblings w.1 w.2 :=
    fun w hw => (hfits w hw).atTheirLevels (htraced w hw)
  have hown : AtTheirLevels (start.PutOn t k) siblings m.goals m.cursor :=
    hlevels (m.goals, m.cursor) List.mem_cons_self
  refine ⟨hlevels, ?_, ?_, ?_⟩
  · intro rest hgoals
    have houter : m.cursor.outer ≠ [] := by
      intro hnil
      have hdepth := hown.depth
      rw [hgoals, hnil, ascents, List.countP_cons_of_pos rfl] at hdepth
      exact Nat.succ_ne_zero _ hdepth
    exact ⟨houter, Cursor.isSome_leave?_iff houter⟩
  · intro goal rest position hgoals hposition
    obtain ⟨there, level, outer, -, hdrop, -, -, -, hle⟩ :=
      hown.positions [] goal rest position hgoals hposition
    obtain ⟨rfl, -⟩ := List.cons.inj hdrop
    have hinside := hown.inside _ List.mem_cons_self
    refine ⟨hle, hinside, (Level.passedSince_eq_nil_iff hinside).trans ?_⟩
    exact ⟨Nat.le_antisymm hle, Nat.le_of_eq ∘ Eq.symm⟩
  · intro hgoals
    have hdepth := hown.depth
    rw [hgoals] at hdepth
    have houter : m.cursor.outer = [] := List.eq_nil_of_length_eq_zero hdepth.symm
    have htop := hown.top
    rw [Cursor.rows, Cursor.levels, houter] at htop
    exact ⟨houter, Option.some.inj htop⟩

/-- A pair of two leaves. -/
def pairOfLeaves : Target Bool :=
  TreeView.exactly
    { kind := fun n => if n then "pair" else "leaf"
      text := fun _ => none
      children := fun n => if n then [⟨.child, false⟩, ⟨.child, false⟩] else []
      rank := Bool.toNat
      rank_lt := by decide }

/-- A pair, with its first leaf. -/
def pairWithFirst : CheckedPattern where
  elements := [.capture "pair" (.literal "pair" none
    [(.child, .capture "first" (.any none)), (.child, .any none)])]
  captures := ["first", "pair"]
  checked := rfl

/-- While the first leaf is bound, the goal that binds the pair is still to come, two goals and a
way up further on; it remembers where the cursor was one level above. -/
theorem pairWithFirst_at_its_levels :
    let start := Matcher.start pairWithFirst.elements [⟨.root, true⟩]
    let m := start.after pairOfLeaves 4
    m.goals = [.record "first" 0, .find (.any none) .child, .leave] ++ .record "pair" 0 :: [] ∧
      (∃ there level outer, start.PutOn pairOfLeaves 4 (.record "pair" 0) there ∧
        m.cursor.levels.drop 1 = level :: outer ∧ there.level.siblings = level.siblings ∧
        there.outer = outer ∧ there.level.index = 0 ∧ 0 ≤ level.index) ∧
      (m.cursor.level.passedSince 0 = [] ↔ 0 = m.cursor.level.index) ∧
      (start.after pairOfLeaves 6).goals = [.leave, .record "pair" 0] ∧
      (start.after pairOfLeaves 6).cursor.outer ≠ [] ∧
      (start.after pairOfLeaves 8).goals = [] ∧
      (start.after pairOfLeaves 8).cursor.outer = [] := by
  obtain ⟨hpending, -, hposition, -⟩ :=
    goals_at_their_levels pairOfLeaves pairWithFirst [⟨.root, true⟩] 4
  obtain ⟨-, hout, -, -⟩ := goals_at_their_levels pairOfLeaves pairWithFirst [⟨.root, true⟩] 6
  obtain ⟨-, -, -, hend⟩ := goals_at_their_levels pairOfLeaves pairWithFirst [⟨.root, true⟩] 8
  have hgoals : ((Matcher.start pairWithFirst.elements [⟨.root, true⟩]).after pairOfLeaves 4).goals =
      .record "first" 0 :: [.find (.any none) .child, .leave, .record "pair" 0] := by rfl
  have hleave : ((Matcher.start pairWithFirst.elements [⟨.root, true⟩]).after pairOfLeaves 6).goals =
      .leave :: [.record "pair" 0] := by rfl
  have hnone : ((Matcher.start pairWithFirst.elements [⟨.root, true⟩]).after pairOfLeaves 8).goals =
      [] := by rfl
  have hfirst := hposition (.record "first" 0) _ 0 hgoals rfl
  have houter := (hout _ hleave).1
  have htop := (hend hnone).1
  have hpair := (hpending _ List.mem_cons_self).positions
    [.record "first" 0, .find (.any none) .child, .leave] (.record "pair" 0) [] 0 hgoals rfl
  exact ⟨hgoals, hpair, hfirst.2.2, hleave, houter, hnone, htop⟩

end StructuralSearch
