import Mathlib.Data.List.Basic
import StructuralSearch.Matching.Results
import StructuralSearch.Proofs.Matching.Outcomes

/-!
# A matcher finds the outcomes of its pattern in order

The matches still ahead of a matcher are those of its goals, followed by those of its forks, the
latest first. One step either finds the first of them or keeps them all, so pulling match after
match gives the list that `matchesOf` defines without a machine, with nothing lost, added or moved.
The fork lengths matter: going back to a fork has to restore the log of its making.
-/
namespace StructuralSearch

variable {ν : Type}

theorem flatMap_filter_eq_ite {α β : Type} (p : α → Bool) (f : α → List β) (l : List α) :
    (l.filter p).flatMap f = l.flatMap fun a => if p a then f a else [] := by
  induction l with
  | nil => rfl
  | cons a l ih =>
    rw [List.filter_cons, List.flatMap_cons, ← ih]
    split
    · rw [List.flatMap_cons]
    · rw [List.nil_append]

namespace Log

theorem ext_toList {l l' : Log ν} (h : l.toList = l'.toList) : l = l' := by
  cases l
  cases l'
  exact congrArg Log.mk (List.reverse_inj.1 h)

theorem backTo_self (l : Log ν) : l.backTo l.length = l := by
  apply ext_toList
  rw [toList_backTo, ← length_toList, List.take_length]

/-- What was added later does not matter when going back to an earlier length. -/
theorem backTo_of_append {l l' : Log ν} {added : List (Binding ν)}
    (h : l'.toList = l.toList ++ added) {n : Nat} (hn : n ≤ l.length) :
    l'.backTo n = l.backTo n := by
  apply ext_toList
  rw [toList_backTo, toList_backTo, h, List.take_append_of_le_length]
  rwa [length_toList]

theorem backTo_backTo (l : Log ν) {m n : Nat} (h : n ≤ m) : (l.backTo m).backTo n = l.backTo n := by
  apply ext_toList
  rw [toList_backTo, toList_backTo, toList_backTo, List.take_take, Nat.min_eq_left h]

theorem length_backTo (l : Log ν) {n : Nat} (h : n ≤ l.length) : (l.backTo n).length = n := by
  rw [← length_toList, toList_backTo, List.length_take, length_toList, Nat.min_eq_left h]

end Log

/-- The cursor at another position among the same siblings. -/
def Cursor.moveTo (c : Cursor ν) (i : Nat) : Cursor ν :=
  { c with level := { c.level with index := i } }

theorem Cursor.fitting?_eq_fittingAt? (c : Cursor ν) (slot : Role) :
    c.fitting? slot = fittingAt? c.level.siblings c.level.index slot := rfl

/-- The matches to which goals lead from a cursor, after the captures of the log. -/
def goalMatches (t : Target ν) : List Goal → Cursor ν → Log ν → List (Match ν)
  | [], c, log => if c.level.atEnd then [.ofLog log] else []
  | .find p slot :: rest, c, log =>
    (p.outcomes t slot c.level.siblings c.level.index log).flatMap fun o =>
      goalMatches t rest (c.moveTo o.index) o.log
  | .record name start :: rest, c, log =>
    goalMatches t rest c (log.addRun name ((c.level.passedSince start).map (·.node)))
  | .again inner min max slot count since :: rest, c, log =>
    if since = some c.level.index then goalMatches t rest c log
    else
      (repeatOutcomes c.level.siblings.size (inner.outcomes t slot c.level.siblings) min max count
        c.level.index log).flatMap fun o => goalMatches t rest (c.moveTo o.index) o.log
  | .expect construct start :: rest, c, log =>
    if (c.level.passedSince start).all fun child => child.role.accepts construct then
      goalMatches t rest c log
    else []
  | .leave :: rest, c, log =>
    match c.leave? with
    | some above => goalMatches t rest above log
    | none => []

/-- The matches that a fork leads to, when the matcher goes back to it from the log. -/
def Fork.matches (t : Target ν) (log : Log ν) (fork : Fork ν) : List (Match ν) :=
  match fork.branch with
  | .goOn => goalMatches t fork.goals fork.cursor (log.backTo fork.logLength)
  | .oneOf first later slot =>
    (first :: later).flatMap fun p =>
      goalMatches t (.find p slot :: fork.goals) fork.cursor (log.backTo fork.logLength)

namespace Matcher

/-- The matches still ahead of a matcher. -/
def ahead (t : Target ν) (m : Matcher ν) : List (Match ν) :=
  match m.mode with
  | .forward => goalMatches t m.goals m.cursor m.log ++ m.forks.flatMap (Fork.matches t m.log)
  | .backward => m.forks.flatMap (Fork.matches t m.log)
  | .finished => []

/-- No fork was made at a longer log than a later one, or than the log is now. -/
def LogsNested (m : Matcher ν) : Prop :=
  (m.log.length :: m.forks.map (·.logLength)).Pairwise (· ≥ ·)

end Matcher

/-- Slots are matched in turn, and what follows them comes after. -/
theorem goalMatches_slots (t : Target ν) (slots : List (Role × Pattern)) (rest : List Goal)
    (c : Cursor ν) (log : Log ν) :
    goalMatches t (slots.map (fun s => .find s.2 s.1) ++ rest) c log =
      (Pattern.outcomesInTurn t slots c.level.siblings c.level.index log).flatMap fun o =>
        goalMatches t rest (c.moveTo o.index) o.log := by
  induction slots generalizing c log with
  | nil => simp only [List.map_nil, List.nil_append, Pattern.outcomesInTurn, List.flatMap_cons,
      List.flatMap_nil, List.append_nil]; rfl
  | cons s slots ih =>
    rw [List.map_cons, List.cons_append, goalMatches, Pattern.outcomesInTurn, List.flatMap_assoc]
    congr 1
    funext o
    exact ih (c.moveTo o.index) o.log

theorem Fork.matches_of_append {t : Target ν} {l l' : Log ν} {added : List (Binding ν)}
    (h : l'.toList = l.toList ++ added) {fork : Fork ν} (hf : fork.logLength ≤ l.length) :
    fork.matches t l' = fork.matches t l := by
  unfold Fork.matches
  rw [Log.backTo_of_append h hf]

theorem Fork.matches_backTo {t : Target ν} {l : Log ν} {n : Nat} {fork : Fork ν}
    (hf : fork.logLength ≤ n) : fork.matches t (l.backTo n) = fork.matches t l := by
  unfold Fork.matches
  rw [Log.backTo_backTo l hf]

namespace Matcher

/-- The matches to which a matcher leads when it goes forward. -/
def onward (t : Target ν) (m : Matcher ν) : List (Match ν) :=
  goalMatches t m.goals m.cursor m.log ++ m.forks.flatMap (Fork.matches t m.log)

theorem LogsNested.le_length {m : Matcher ν} (h : m.LogsNested) {fork : Fork ν}
    (hf : fork ∈ m.forks) : fork.logLength ≤ m.log.length :=
  List.rel_of_pairwise_cons h (List.mem_map_of_mem hf)

/-- Adding to the log changes nothing for the forks left before. -/
theorem LogsNested.of_append {t : Target ν} {m next : Matcher ν} (h : m.LogsNested)
    (hforks : next.forks = m.forks) {added : List (Binding ν)}
    (hlog : next.log.toList = m.log.toList ++ added) :
    next.LogsNested ∧ next.forks.flatMap (Fork.matches t next.log) =
      m.forks.flatMap (Fork.matches t m.log) := by
  have hlength : m.log.length ≤ next.log.length := by
    rw [← Log.length_toList, ← Log.length_toList, hlog, List.length_append]
    omega
  rw [LogsNested, hforks]
  constructor
  · refine List.pairwise_cons.2 ⟨?_, (List.pairwise_cons.1 h).2⟩
    intro n hn
    exact Nat.le_trans ((List.pairwise_cons.1 h).1 n hn) hlength
  · apply List.flatMap_congr
    intro fork hf
    exact Fork.matches_of_append hlog (h.le_length hf)

/-- A new fork comes before those left earlier. -/
theorem LogsNested.fork {t : Target ν} {m : Matcher ν} (h : m.LogsNested) (goals rest : List Goal)
    (branch : Branch) :
    ((m.fork rest branch).withGoals goals).LogsNested ∧
      ((m.fork rest branch).withGoals goals).onward t =
        goalMatches t goals m.cursor m.log ++
          Fork.matches t m.log ⟨m.log.length, m.cursor, rest, branch⟩ ++
          m.forks.flatMap (Fork.matches t m.log) := by
  constructor
  · refine List.pairwise_cons.2 ⟨?_, h⟩
    intro n hn
    rcases List.mem_cons.1 hn with rfl | hn
    · exact Nat.le_refl m.log.length
    · exact (List.pairwise_cons.1 h).1 n hn
  · rw [List.append_assoc]
    rfl

/-- A matcher that has its goals replaced leads where these lead. -/
theorem onward_withGoals (t : Target ν) (m : Matcher ν) (goals : List Goal) :
    (m.withGoals goals).onward t =
      goalMatches t goals m.cursor m.log ++ m.forks.flatMap (Fork.matches t m.log) := rfl

/-- What a step makes of goals leads to the matches that the goals led to; goals that fail led to
none. -/
def Keeps (t : Target ν) (m : Matcher ν) (goals : List Goal) : Option (Matcher ν) → Prop
  | some next => next.LogsNested ∧ next.onward t =
      goalMatches t goals m.cursor m.log ++ m.forks.flatMap (Fork.matches t m.log)
  | none => goalMatches t goals m.cursor m.log = []

/-- Other goals in the place of some, with the same matches. -/
theorem LogsNested.keeps_withGoals {t : Target ν} {m : Matcher ν} (h : m.LogsNested)
    {goals goals' : List Goal}
    (he : goalMatches t goals' m.cursor m.log = goalMatches t goals m.cursor m.log) :
    m.Keeps t goals (some (m.withGoals goals')) := by
  refine ⟨h, ?_⟩
  rw [onward_withGoals, he]

/-- Goals that come before others, which wait at a new fork. -/
theorem LogsNested.keeps_fork {t : Target ν} {m : Matcher ν} (h : m.LogsNested)
    {goals goals' rest : List Goal} {branch : Branch}
    (he : goalMatches t goals' m.cursor m.log ++
      Fork.matches t m.log ⟨m.log.length, m.cursor, rest, branch⟩ =
        goalMatches t goals m.cursor m.log) :
    m.Keeps t goals (some ((m.fork rest branch).withGoals goals')) := by
  obtain ⟨hnested, honward⟩ := h.fork (t := t) goals' rest branch
  exact ⟨hnested, by rw [honward, he]⟩

/-- One node matched, and perhaps a capture added. -/
theorem LogsNested.keeps_pass {t : Target ν} {m next : Matcher ν} (h : m.LogsNested)
    {goals : List Goal} (hforks : next.forks = m.forks) {added : List (Binding ν)}
    (hlog : next.log.toList = m.log.toList ++ added)
    (he : goalMatches t next.goals next.cursor next.log = goalMatches t goals m.cursor m.log) :
    m.Keeps t goals (some next) := by
  obtain ⟨hnested, hlater⟩ := h.of_append (t := t) hforks hlog
  exact ⟨hnested, by rw [onward, he, hlater]⟩

theorem matches_goOn (t : Target ν) (m : Matcher ν) (rest : List Goal) :
    Fork.matches t m.log ⟨m.log.length, m.cursor, rest, .goOn⟩ =
      goalMatches t rest m.cursor m.log := by
  simp only [Fork.matches, Log.backTo_self]

theorem matches_oneOf (t : Target ν) (m : Matcher ν) (rest : List Goal) (first : Pattern)
    (later : List Pattern) (slot : Role) :
    Fork.matches t m.log ⟨m.log.length, m.cursor, rest, .oneOf first later slot⟩ =
      (first :: later).flatMap fun p => goalMatches t (.find p slot :: rest) m.cursor m.log := by
  simp only [Fork.matches, Log.backTo_self]

theorem goalMatches_choice (t : Target ν) (ps : List Pattern) (slot : Role) (rest : List Goal)
    (c : Cursor ν) (log : Log ν) :
    goalMatches t (.find (.choice ps) slot :: rest) c log =
      ps.flatMap fun p => goalMatches t (.find p slot :: rest) c log := by
  rw [goalMatches, Pattern.outcomes, Pattern.outcomesOfEach_eq_flatMap, List.flatMap_assoc]
  rfl

theorem goalMatches_adapter (t : Target ν) (construct : Construct) (inner : Pattern) (slot : Role)
    (rest : List Goal) (c : Cursor ν) (log : Log ν) :
    goalMatches t (.find (.adapter construct inner) slot :: rest) c log =
      goalMatches t (.find inner slot :: .expect construct c.level.index :: rest) c log := by
  rw [goalMatches, goalMatches, Pattern.outcomes, flatMap_filter_eq_ite]
  rfl

/-- A node with all of its children matched is left for its next sibling; with children left over
it is not. -/
theorem goalMatches_leave (t : Target ν) (rest : List Goal) (children : List (Child ν))
    (c : Cursor ν) {o : Outcome ν} (h : InReach children.length 0 o.index) :
    goalMatches t (.leave :: rest) ((c.enter children).moveTo o.index) o.log =
      if o.index = children.length then
        goalMatches t rest (c.moveTo (c.level.index + 1)) o.log
      else [] := by
  unfold InReach at h
  by_cases hend : o.index = children.length
  · have hleave : ((c.enter children).moveTo o.index).leave? =
        some (c.moveTo (c.level.index + 1)) := by
      simp only [Cursor.leave?, Cursor.enter, Cursor.moveTo, Level.atEnd, List.size_toArray, hend,
        Nat.le_refl, decide_true, if_true, Level.advance]
    rw [goalMatches, hleave, if_pos hend]
  · have hleave : ((c.enter children).moveTo o.index).leave? = none := by
      have hlt : ¬children.length ≤ o.index := by omega
      simp only [Cursor.leave?, Cursor.enter, Cursor.moveTo, Level.atEnd, List.size_toArray, hlt,
        decide_false, Bool.false_eq_true, if_false]
    rw [goalMatches, hleave, if_neg hend]

/-- The slots of a literal, below the current node, and what follows the node. -/
theorem goalMatches_enter (t : Target ν) (slots : List (Role × Pattern)) (rest : List Goal)
    (children : List (Child ν)) (c : Cursor ν) (log : Log ν) :
    goalMatches t (slots.map (fun s => .find s.2 s.1) ++ .leave :: rest) (c.enter children) log =
      (((Pattern.outcomesInTurn t slots children.toArray 0 log).filter fun o =>
        o.index == children.length).map fun o => Outcome.mk (c.level.index + 1) o.log).flatMap
          fun o => goalMatches t rest (c.moveTo o.index) o.log := by
  rw [goalMatches_slots, List.flatMap_map, flatMap_filter_eq_ite]
  apply List.flatMap_congr
  intro o ho
  have hreach := Pattern.inReach_outcomesInTurn t slots children.toArray 0 log o ho
  rw [goalMatches_leave t rest children c hreach]
  simp only [beq_iff_eq]

/-- A pattern without outcomes here fails. -/
theorem keeps_fail {t : Target ν} {m : Matcher ν} {slot : Role} {rest : List Goal} {p : Pattern}
    (hfind : m.find t slot rest p = none)
    (hnone : p.outcomes t slot m.cursor.level.siblings m.cursor.level.index m.log = []) :
    m.Keeps t (.find p slot :: rest) (m.find t slot rest p) := by
  rw [hfind, Keeps, goalMatches, hnone]
  rfl

theorem keeps_find_any {t : Target ν} {m : Matcher ν} (h : m.LogsNested) (slot : Role)
    (rest : List Goal) (name : Option String) :
    m.Keeps t (.find (.any name) slot :: rest) (m.find t slot rest (.any name)) := by
  cases hc : fittingAt? m.cursor.level.siblings m.cursor.level.index slot with
  | none =>
    have hfind : m.find t slot rest (.any name) = none := by
      cases name <;> simp only [find, Cursor.fitting?_eq_fittingAt?, hc, Option.map_none]
    apply keeps_fail hfind
    rw [Pattern.outcomes, hc]
    rfl
  | some child =>
    cases name with
    | none =>
      have hfind : m.find t slot rest (.any none) = some (m.pass rest) := by
        simp only [find, Cursor.fitting?_eq_fittingAt?, hc, Option.map_some]
      rw [hfind]
      refine h.keeps_pass rfl (List.append_nil m.log.toList).symm ?_
      rw [goalMatches, Pattern.outcomes, hc]
      exact (List.append_nil _).symm
    | some name =>
      have hfind : m.find t slot rest (.any (some name)) =
          some { m.pass rest with log := m.log.add ⟨name, some child.node⟩ } := by
        simp only [find, Cursor.fitting?_eq_fittingAt?, hc, Option.map_some]
      rw [hfind]
      refine h.keeps_pass rfl (Log.toList_add m.log ⟨name, some child.node⟩) ?_
      rw [goalMatches, Pattern.outcomes, hc]
      exact (List.append_nil _).symm

theorem keeps_find_backreference {t : Target ν} {m : Matcher ν} (h : m.LogsNested) (slot : Role)
    (rest : List Goal) (name : String) :
    m.Keeps t (.find (.backreference name) slot :: rest)
      (m.find t slot rest (.backreference name)) := by
  cases hc : fittingAt? m.cursor.level.siblings m.cursor.level.index slot with
  | none =>
    have hfind : m.find t slot rest (.backreference name) = none := by
      simp only [find, Cursor.fitting?_eq_fittingAt?, hc, Option.bind_none]
    apply keeps_fail hfind
    rw [Pattern.outcomes, hc]
    rfl
  | some child =>
    simp only [find, Cursor.fitting?_eq_fittingAt?, hc, Option.bind_some]
    split
    · rename_i hsame
      refine h.keeps_pass rfl (List.append_nil m.log.toList).symm ?_
      rw [goalMatches, Pattern.outcomes, hc, Option.toList_some, List.filter_cons, if_pos hsame]
      exact (List.append_nil _).symm
    · rename_i hother
      rw [Keeps, goalMatches, Pattern.outcomes, hc, Option.toList_some, List.filter_cons,
        if_neg hother]
      rfl

theorem keeps_find_literal {t : Target ν} {m : Matcher ν} (h : m.LogsNested) (slot : Role)
    (rest : List Goal) (kind : String) (text : Option String) (slots : List (Role × Pattern)) :
    m.Keeps t (.find (.literal kind text slots) slot :: rest)
      (m.find t slot rest (.literal kind text slots)) := by
  cases hc : fittingAt? m.cursor.level.siblings m.cursor.level.index slot with
  | none =>
    have hfind : m.find t slot rest (.literal kind text slots) = none := by
      simp only [find, Cursor.fitting?_eq_fittingAt?, hc, Option.bind_none]
    apply keeps_fail hfind
    rw [Pattern.outcomes, hc]
    rfl
  | some child =>
    simp only [find, Cursor.fitting?_eq_fittingAt?, hc, Option.bind_some]
    split
    · rename_i hsame
      refine h.keeps_pass rfl (List.append_nil m.log.toList).symm ?_
      rw [goalMatches_enter, goalMatches, Pattern.outcomes, hc, Option.toList_some,
        List.filter_cons, if_pos hsame, List.filter_nil, List.flatMap_singleton]
    · rename_i hother
      rw [Keeps, goalMatches, Pattern.outcomes, hc, Option.toList_some, List.filter_cons,
        if_neg hother]
      rfl

/-- Looking for a pattern keeps what is ahead: each pattern as its outcomes say. -/
theorem keeps_find {t : Target ν} {m : Matcher ν} (h : m.LogsNested) (slot : Role)
    (rest : List Goal) (p : Pattern) :
    m.Keeps t (.find p slot :: rest) (m.find t slot rest p) := by
  cases p with
  | any name => exact keeps_find_any h slot rest name
  | capture name inner =>
    apply h.keeps_withGoals
    rw [goalMatches, goalMatches, Pattern.outcomes, List.flatMap_map]
    rfl
  | optional inner =>
    apply h.keeps_fork
    rw [matches_goOn, goalMatches, goalMatches, Pattern.outcomes, List.flatMap_append,
      List.flatMap_singleton]
    rfl
  | repetition inner min max =>
    apply h.keeps_withGoals
    rw [goalMatches, goalMatches, Pattern.outcomes, if_neg (by simp)]
  | choice alternatives =>
    rcases alternatives with _ | ⟨first, _ | ⟨second, later⟩⟩
    · rfl
    · apply h.keeps_withGoals
      rw [goalMatches_choice, List.flatMap_singleton]
    · apply h.keeps_fork
      rw [matches_oneOf, goalMatches_choice]
      rfl
  | backreference name => exact keeps_find_backreference h slot rest name
  | literal kind text slots => exact keeps_find_literal h slot rest kind text slots
  | adapter construct inner =>
    apply h.keeps_withGoals
    rw [goalMatches_adapter]

/-- One more time of a repetition and then the rest of it, whether the rest is told by how far the
time came or by where the next one would begin. -/
theorem goalMatches_onceMore (t : Target ν) (inner : Pattern) (min : Nat) (max : Option Nat)
    (slot : Role) (count : Nat) (rest : List Goal) (c : Cursor ν) (log : Log ν) :
    goalMatches t (.find inner slot ::
        .again inner min max slot (count + 1) (some c.level.index) :: rest) c log =
      ((inner.outcomes t slot c.level.siblings c.level.index log).flatMap fun o =>
        if c.level.index < o.index ∧ o.index ≤ c.level.siblings.size then
          repeatOutcomes c.level.siblings.size (inner.outcomes t slot c.level.siblings) min max
            (count + 1) o.index o.log
        else [o]).flatMap fun o => goalMatches t rest (c.moveTo o.index) o.log := by
  rw [goalMatches, List.flatMap_assoc]
  apply List.flatMap_congr
  intro o ho
  have hreach := inner.inReach_outcomes t slot c.level.siblings c.level.index log o ho
  by_cases further : c.level.index < o.index ∧ o.index ≤ c.level.siblings.size
  · have hmoved : ¬some c.level.index = some (c.moveTo o.index).level.index :=
      fun he => Nat.ne_of_lt further.1 (Option.some.inj he)
    rw [if_pos further, goalMatches, if_neg hmoved]
    rfl
  · have hstays : some c.level.index = some (c.moveTo o.index).level.index :=
      congrArg some (hreach.eq_of_not_lt further).symm
    rw [if_neg further, goalMatches, if_pos hstays, List.flatMap_singleton]

theorem keeps_again {t : Target ν} {m : Matcher ν} (h : m.LogsNested) (inner : Pattern) (min : Nat)
    (max : Option Nat) (slot : Role) (count : Nat) (since : Option Nat) (rest : List Goal) :
    m.Keeps t (.again inner min max slot count since :: rest)
      (some (m.again inner min max slot count since rest)) := by
  unfold again
  dsimp only
  split
  · rename_i hstays
    apply h.keeps_withGoals
    rw [goalMatches, if_pos hstays]
  · rename_i hmoved
    split
    · rename_i hmin
      apply h.keeps_withGoals
      rw [goalMatches_onceMore, goalMatches, if_neg hmoved, repeatOutcomes, if_pos hmin]
    · rename_i hmin
      split
      · rename_i hmax
        apply h.keeps_fork
        rw [goalMatches_onceMore, matches_goOn, goalMatches, if_neg hmoved, repeatOutcomes,
          if_neg hmin, if_pos hmax, List.flatMap_append, List.flatMap_singleton]
        rfl
      · rename_i hmax
        apply h.keeps_withGoals
        rw [goalMatches, if_neg hmoved, repeatOutcomes, if_neg hmin, if_neg hmax,
          List.flatMap_singleton]
        rfl

theorem keeps_perform {t : Target ν} {m : Matcher ν} (h : m.LogsNested) (rest : List Goal)
    (goal : Goal) : m.Keeps t (goal :: rest) (m.perform t rest goal) := by
  cases goal with
  | find p slot => exact keeps_find h slot rest p
  | record name start => exact h.keeps_pass rfl (Log.toList_addRun ..) rfl
  | again inner min max slot count since => exact keeps_again h inner min max slot count since rest
  | expect construct start =>
    rw [perform]
    split
    · rename_i hall
      apply h.keeps_withGoals
      rw [goalMatches, if_pos hall]
    · rename_i hall
      rw [Keeps, goalMatches, if_neg hall]
  | leave =>
    rw [perform]
    cases hleave : m.cursor.leave? with
    | none => rw [Option.map_none, Keeps, goalMatches, hleave]
    | some above =>
      refine h.keeps_pass rfl (List.append_nil m.log.toList).symm ?_
      rw [goalMatches, hleave]

theorem ahead_of_forward {t : Target ν} {m : Matcher ν} (h : m.mode = .forward) :
    m.ahead t = m.onward t := by
  rw [ahead, h, onward]

theorem ahead_of_backward {t : Target ν} {m : Matcher ν} (h : m.mode = .backward) :
    m.ahead t = m.forks.flatMap (Fork.matches t m.log) := by
  rw [ahead, h]

theorem ahead_of_finished {t : Target ν} {m : Matcher ν} (h : m.mode = .finished) :
    m.ahead t = [] := by
  rw [ahead, h]

/-- Going back to the latest fork takes up the matches that it leads to. -/
theorem ahead_backtrack (t : Target ν) {m : Matcher ν} (h : m.LogsNested) :
    m.backtrack.LogsNested ∧ m.backtrack.ahead t = m.forks.flatMap (Fork.matches t m.log) := by
  unfold backtrack
  split
  · rename_i hforks
    constructor
    · exact h
    · rw [hforks]
      rfl
  · rename_i fork older hforks
    have hle : fork.logLength ≤ m.log.length :=
      h.le_length (by rw [hforks]; exact List.mem_cons_self)
    rw [LogsNested, hforks] at h
    have holder := (List.pairwise_cons.1 h).2
    have hback : (m.log.backTo fork.logLength).length = fork.logLength := m.log.length_backTo hle
    have hlater : older.flatMap (Fork.matches t (m.log.backTo fork.logLength)) =
        older.flatMap (Fork.matches t m.log) := by
      apply List.flatMap_congr
      intro f hf
      exact Fork.matches_backTo (List.rel_of_pairwise_cons holder (List.mem_map_of_mem hf))
    rw [hforks, List.flatMap_cons]
    dsimp only
    split
    · rename_i hbranch
      refine ⟨by rw [LogsNested, hback]; exact holder, ?_⟩
      rw [ahead_of_forward rfl, onward, hlater, Fork.matches, hbranch]
    · rename_i first slot hbranch
      refine ⟨by rw [LogsNested, hback]; exact holder, ?_⟩
      rw [ahead_of_forward rfl, onward, hlater, Fork.matches, hbranch]
      dsimp only
      rw [List.flatMap_singleton]
    · rename_i first second later slot hbranch
      constructor
      · rw [LogsNested, hback]
        refine List.pairwise_cons.2 ⟨?_, holder⟩
        intro n hn
        rcases List.mem_cons.1 hn with rfl | hn
        · exact Nat.le_refl _
        · exact (List.pairwise_cons.1 holder).1 n hn
      · have hagain : Fork.matches t (m.log.backTo fork.logLength)
            { fork with branch := .oneOf second later slot } =
            Fork.matches t m.log { fork with branch := .oneOf second later slot } :=
          Fork.matches_backTo (Nat.le_refl _)
        rw [ahead_of_forward rfl, onward, List.flatMap_cons, hlater, hagain, ← List.append_assoc]
        congr 1
        simp only [Fork.matches, hbranch]
        rfl

/-- A step finds the first match ahead or keeps all of them. -/
theorem ahead_step (t : Target ν) {m : Matcher ν} (h : m.LogsNested) :
    (m.step t).2.LogsNested ∧ m.ahead t = (m.step t).1.toList ++ (m.step t).2.ahead t := by
  unfold step
  split
  · exact ⟨h, rfl⟩
  · rename_i hmode
    obtain ⟨hnested, hahead⟩ := ahead_backtrack t h
    refine ⟨hnested, ?_⟩
    rw [ahead_of_backward hmode, ← hahead]
    rfl
  · rename_i hmode
    split
    · rename_i hgoals
      refine ⟨h, ?_⟩
      rw [ahead_of_forward hmode, onward, hgoals, goalMatches, ahead_of_backward rfl]
      congr 1
      dsimp only
      split <;> rfl
    · rename_i goal rest hgoals
      have hkeeps := keeps_perform (t := t) h rest goal
      split
      · rename_i next hnext
        rw [hnext] at hkeeps
        refine ⟨hkeeps.1, ?_⟩
        have hforward : next.mode = .forward := (mode_perform hnext).trans hmode
        rw [ahead_of_forward hmode, onward, hgoals, ← hkeeps.2, ← ahead_of_forward hforward]
        rfl
      · rename_i hfails
        rw [hfails] at hkeeps
        refine ⟨h, ?_⟩
        rw [ahead_of_forward hmode, onward, hgoals, hkeeps, ahead_of_backward rfl]
        rfl

/-- Looking for the next match finds the first one ahead, or there is none. -/
theorem ahead_next (t : Target ν) (m : Matcher ν) (h : m.LogsNested) :
    (m.next t).2.LogsNested ∧ m.ahead t = (m.next t).1.toList ++ (m.next t).2.ahead t ∧
      ((m.next t).1 = none → (m.next t).2.mode = .finished) := by
  fun_induction next t m with
  | case1 m hdone => exact ⟨h, rfl, fun _ => hdone⟩
  | case2 m hdone _ found after hstep =>
    obtain ⟨hnested, hahead⟩ := ahead_step t h
    rw [hstep] at hnested hahead
    exact ⟨hnested, hahead, fun hnone => absurd hnone (Option.some_ne_none found)⟩
  | case3 m hdone _ after hstep _ ih =>
    obtain ⟨hnested, hahead⟩ := ahead_step t h
    rw [hstep] at hnested hahead
    obtain ⟨hnested', hahead', hfinished⟩ := ih hnested
    refine ⟨hnested', ?_, hfinished⟩
    rw [hahead, ← hahead']
    rfl

/-- All matches that are found are those ahead, in their order. -/
theorem results_eq_ahead (t : Target ν) (m : Matcher ν) (h : m.LogsNested) :
    m.results t = m.ahead t := by
  fun_induction results t m with
  | case1 m found after hnext _ ih =>
    obtain ⟨hnested, hahead, _⟩ := ahead_next t m h
    rw [hnext] at hnested hahead
    rw [ih hnested, hahead]
    rfl
  | case2 m after hnext =>
    obtain ⟨_, hahead, hfinished⟩ := ahead_next t m h
    rw [hnext] at hahead hfinished
    have hmode : after.mode = .finished := hfinished rfl
    rw [hahead, ahead_of_finished hmode]
    rfl

theorem logsNested_start (elements : List Pattern) (siblings : List (Child ν)) :
    (start elements siblings).LogsNested :=
  List.pairwise_singleton _ _

/-- Before the first step the matches of the elements with all of the siblings are ahead. -/
theorem ahead_start (t : Target ν) (elements : List Pattern) (siblings : List (Child ν)) :
    (start elements siblings).ahead t = matchesOf t elements siblings := by
  have hgoals : (start elements siblings).goals =
      (inNoSlot elements).map (fun s => .find s.2 s.1) ++ [] := by
    rw [List.append_nil, inNoSlot, List.map_map]
    rfl
  rw [ahead_of_forward rfl, onward, hgoals, goalMatches_slots]
  refine (List.append_nil _).trans ?_
  rw [matchesOf, List.map_eq_flatMap, flatMap_filter_eq_ite]
  apply List.flatMap_congr
  intro o ho
  have hreach := Pattern.inReach_outcomesInTurn t _ _ _ _ o ho
  rw [InReach] at hreach
  have hend : ((start elements siblings).cursor.moveTo o.index).level.atEnd =
      (o.index == siblings.length) := by
    rw [Bool.eq_iff_iff, beq_iff_eq]
    simp only [Level.atEnd, Cursor.moveTo, start, Cursor.start, List.size_toArray,
      decide_eq_true_eq] at hreach ⊢
    omega
  rw [goalMatches, hend]

theorem results_start (t : Target ν) (elements : List Pattern) (siblings : List (Child ν)) :
    (start elements siblings).results t = matchesOf t elements siblings := by
  rw [results_eq_ahead t _ (logsNested_start elements siblings), ahead_start]

/-- The answer to the pull after `k` others, each for the next match. -/
def pull (t : Target ν) (m : Matcher ν) : Nat → Option (Match ν)
  | 0 => (m.next t).1
  | k + 1 => (m.next t).2.pull t k

theorem pull_eq_getElem? (t : Target ν) {m : Matcher ν} (h : m.LogsNested) (k : Nat) :
    m.pull t k = (m.ahead t)[k]? := by
  induction k generalizing m with
  | zero =>
    obtain ⟨_, hahead, hfinished⟩ := ahead_next t m h
    rw [pull, hahead]
    cases hfound : (m.next t).1 with
    | none => rw [ahead_of_finished (hfinished hfound)]; rfl
    | some found => rfl
  | succ k ih =>
    obtain ⟨hnested, hahead, hfinished⟩ := ahead_next t m h
    rw [pull, ih hnested, hahead]
    cases hfound : (m.next t).1 with
    | none => rw [ahead_of_finished (hfinished hfound)]; rfl
    | some found => rfl

end Matcher

theorem CheckedPattern.preferred?_eq_head? (t : Target ν) (p : CheckedPattern) (n : ν) :
    p.preferred? t n = (matchesOf t p.elements [⟨.root, n⟩]).head? := by
  rw [List.head?_eq_getElem?, ← Matcher.ahead_start]
  exact Matcher.pull_eq_getElem? t (Matcher.logsNested_start p.elements [⟨.root, n⟩]) 0

/-- Pulling match after match gives the matches of the pattern in order, each as often as it has
outcomes, and nothing after the last of them. -/
theorem pulls_give_matches_in_order (t : Target ν) (p : CheckedPattern)
    (siblings : List (Child ν)) :
    (Matcher.start p.elements siblings).results t = matchesOf t p.elements siblings ∧
      ∀ k, (Matcher.start p.elements siblings).pull t k =
        (matchesOf t p.elements siblings)[k]? := by
  refine ⟨Matcher.results_start t p.elements siblings, ?_⟩
  intro k
  rw [Matcher.pull_eq_getElem? t (Matcher.logsNested_start p.elements siblings),
    Matcher.ahead_start]

end StructuralSearch
