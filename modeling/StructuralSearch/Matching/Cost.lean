import StructuralSearch.Matching.Matcher

/-!
# Why matching ends

The cost of a matcher bounds the steps that it can still take, over all forks that it has left or
may yet leave. `cost_step_lt` says that each step lowers it. A repetition is bounded by the
siblings left, because a time that matches none of them is the last.
-/
namespace StructuralSearch

variable {ν : Type}

/-- The cost of a repetition from position `i` among `n` siblings: `inner i k` is that of one time
from `i` on when going on from position `j` costs `k j`, and `rest j` is that of stopping at `j`. -/
def iterateCost (n : Nat) (inner : Nat → (Nat → Nat) → Nat) (rest : Nat → Nat) (i : Nat) : Nat :=
  2 + rest i + inner i fun j => if i < j ∧ j ≤ n then iterateCost n inner rest j else 1 + rest j
termination_by n - i

namespace Pattern

mutual

/-- The cost of matching a pattern from position `i` among siblings, when going on from position `j`
costs `rest j`. -/
def cost (t : Target ν) : Pattern → Array (Child ν) → Nat → (Nat → Nat) → Nat
  | .any _, siblings, i, rest => if i < siblings.size then 1 + rest (i + 1) else 1
  | .capture _ inner, siblings, i, rest => 1 + cost t inner siblings i fun j => 1 + rest j
  | .optional inner, siblings, i, rest => 2 + rest i + cost t inner siblings i rest
  | .repetition inner _ _, siblings, i, rest =>
    1 + iterateCost siblings.size (cost t inner siblings) rest i
  | .choice alternatives, siblings, i, rest => 1 + costAll t alternatives siblings i rest
  | .backreference _, siblings, i, rest => if i < siblings.size then 1 + rest (i + 1) else 1
  | .literal _ _ slots, siblings, i, rest =>
    match siblings[i]? with
    | some c => 1 + costSlots t slots (t.children c.node).toArray 0 fun _ => 1 + rest (i + 1)
    | none => 1
  | .adapter _ inner, siblings, i, rest => 1 + cost t inner siblings i fun j => 1 + rest j
termination_by structural p => p

/-- The cost of trying patterns in turn, with one step to go back to each. -/
def costAll (t : Target ν) : List Pattern → Array (Child ν) → Nat → (Nat → Nat) → Nat
  | [], _, _, _ => 0
  | p :: ps, siblings, i, rest => 1 + cost t p siblings i rest + costAll t ps siblings i rest
termination_by structural ps => ps

/-- The cost of matching slots one after the other. -/
def costSlots (t : Target ν) : List (Role × Pattern) → Array (Child ν) → Nat → (Nat → Nat) → Nat
  | [], _, i, rest => rest i
  | (_, p) :: slots, siblings, i, rest =>
    cost t p siblings i fun j => costSlots t slots siblings j rest
termination_by structural slots => slots

end

end Pattern

/-- Two ways to price what follows agree on the positions that can be reached from `i`. -/
def AgreeFrom (n i : Nat) (k l : Nat → Nat) : Prop :=
  ∀ j, i ≤ j → j ≤ max i n → k j = l j

theorem AgreeFrom.mono {n i j : Nat} {k l : Nat → Nat} (h : AgreeFrom n i k l) (hj : i ≤ j)
    (hn : j ≤ max i n) : AgreeFrom n j k l :=
  fun m h₁ h₂ => h m (by omega) (by omega)

theorem iterateCost_congr {n : Nat} {inner : Nat → (Nat → Nat) → Nat}
    (hinner : ∀ i k l, AgreeFrom n i k l → inner i k = inner i l) {k l : Nat → Nat} :
    ∀ i, AgreeFrom n i k l → iterateCost n inner k i = iterateCost n inner l i := by
  intro i
  induction h : n - i using Nat.strongRecOn generalizing i with
  | ind m ih =>
    intro agree
    rw [iterateCost, iterateCost, agree i (by omega) (by omega)]
    congr 1
    apply hinner
    intro j hj hn
    dsimp only
    split
    · exact ih (n - j) (by omega) j rfl (agree.mono hj hn)
    · rw [agree j hj hn]

namespace Pattern

mutual

theorem cost_congr (t : Target ν) : ∀ (p : Pattern) (siblings : Array (Child ν)) (i : Nat)
    (k l : Nat → Nat), AgreeFrom siblings.size i k l →
      cost t p siblings i k = cost t p siblings i l
  | .any _, siblings, i, k, l, h => by
    simp only [cost]
    split
    · rw [h (i + 1) (by omega) (by omega)]
    · rfl
  | .capture _ inner, siblings, i, k, l, h => by
    simp only [cost]
    rw [cost_congr t inner siblings i _ _ fun j h₁ h₂ => congrArg (1 + ·) (h j h₁ h₂)]
  | .optional inner, siblings, i, k, l, h => by
    simp only [cost]
    rw [cost_congr t inner siblings i _ _ h, h i (by omega) (by omega)]
  | .repetition inner _ _, siblings, i, k, l, h => by
    simp only [cost]
    rw [iterateCost_congr (cost_congr t inner siblings) i h]
  | .choice alternatives, siblings, i, k, l, h => by
    simp only [cost]
    rw [costAll_congr t alternatives siblings i _ _ h]
  | .backreference _, siblings, i, k, l, h => by
    simp only [cost]
    split
    · rw [h (i + 1) (by omega) (by omega)]
    · rfl
  | .literal _ _ slots, siblings, i, k, l, h => by
    simp only [cost]
    split
    · rename_i c hc
      have := (Array.getElem?_eq_some_iff.1 hc).1
      rw [h (i + 1) (by omega) (by omega)]
    · rfl
  | .adapter _ inner, siblings, i, k, l, h => by
    simp only [cost]
    rw [cost_congr t inner siblings i _ _ fun j h₁ h₂ => congrArg (1 + ·) (h j h₁ h₂)]

theorem costAll_congr (t : Target ν) : ∀ (ps : List Pattern) (siblings : Array (Child ν)) (i : Nat)
    (k l : Nat → Nat), AgreeFrom siblings.size i k l →
      costAll t ps siblings i k = costAll t ps siblings i l
  | [], _, _, _, _, _ => rfl
  | p :: ps, siblings, i, k, l, h => by
    simp only [costAll]
    rw [cost_congr t p siblings i _ _ h, costAll_congr t ps siblings i _ _ h]

end

end Pattern

/-- The cost of reaching all goals from a cursor. -/
def goalsCost (t : Target ν) : List Goal → Array (Child ν) → Nat → List (Level ν) → Nat
  | [], _, _, _ => 1
  | .find p _ :: rest, siblings, i, outer =>
    p.cost t siblings i fun j => goalsCost t rest siblings j outer
  | .record .. :: rest, siblings, i, outer => 1 + goalsCost t rest siblings i outer
  | .again inner _ _ _ _ since :: rest, siblings, i, outer =>
    if since = some i then 1 + goalsCost t rest siblings i outer
    else
      iterateCost siblings.size (inner.cost t siblings)
        (fun j => goalsCost t rest siblings j outer) i
  | .expect .. :: rest, siblings, i, outer => 1 + goalsCost t rest siblings i outer
  | .leave :: rest, _, _, outer =>
    match outer with
    | [] => 1
    | above :: outer => 1 + goalsCost t rest above.siblings (above.index + 1) outer

def Cursor.cost (t : Target ν) (goals : List Goal) (c : Cursor ν) : Nat :=
  goalsCost t goals c.level.siblings c.level.index c.outer

/-- The cost of going on from a fork, with all that it leaves to be tried. -/
def Fork.cost (t : Target ν) (fork : Fork ν) : Nat :=
  match fork.branch with
  | .goOn => 1 + fork.cursor.cost t fork.goals
  | .oneOf first later _ =>
    Pattern.costAll t (first :: later) fork.cursor.level.siblings fork.cursor.level.index fun j =>
      goalsCost t fork.goals fork.cursor.level.siblings j fork.cursor.outer

namespace Matcher

def forksCost (t : Target ν) : List (Fork ν) → Nat
  | [] => 0
  | fork :: older => fork.cost t + forksCost t older

def cost (t : Target ν) (m : Matcher ν) : Nat :=
  match m.mode with
  | .forward => 1 + m.cursor.cost t m.goals + forksCost t m.forks
  | .backward => 1 + forksCost t m.forks
  | .finished => 0

end Matcher

theorem Pattern.cost_pos (t : Target ν) (p : Pattern) (siblings : Array (Child ν)) (i : Nat)
    (k : Nat → Nat) : 0 < p.cost t siblings i k := by
  cases p <;> simp only [Pattern.cost] <;> (try split) <;> omega

theorem goalsCost_pos (t : Target ν) (goals : List Goal) (siblings : Array (Child ν)) (i : Nat)
    (outer : List (Level ν)) : 0 < goalsCost t goals siblings i outer := by
  cases goals with
  | nil => simp [goalsCost]
  | cons g rest =>
    cases g <;> simp only [goalsCost]
    · exact Pattern.cost_pos ..
    · omega
    · split
      · omega
      · rw [iterateCost]; omega
    · omega
    · split <;> omega

/-- Slots are matched below the current node and then left upwards. -/
theorem goalsCost_slots (t : Target ν) (slots : List (Role × Pattern)) (rest : List Goal)
    (children : Array (Child ν)) (j : Nat) (above : Level ν) (outer : List (Level ν)) :
    goalsCost t (slots.map (fun s => .find s.2 s.1) ++ .leave :: rest) children j
        (above :: outer) =
      Pattern.costSlots t slots children j fun _ =>
        1 + goalsCost t rest above.siblings (above.index + 1) outer := by
  induction slots generalizing j with
  | nil => simp [goalsCost, Pattern.costSlots]
  | cons s slots ih =>
    obtain ⟨r, p⟩ := s
    simp only [List.map_cons, List.cons_append, goalsCost, Pattern.costSlots]
    congr 1
    funext j
    exact ih j

theorem Cursor.eq_of_fitting? {c : Cursor ν} {slot : Role} {child : Child ν}
    (h : c.fitting? slot = some child) : c.level.siblings[c.level.index]? = some child :=
  Option.eq_some_of_filter_eq_some h

namespace Matcher

/-- The cost without the part of the mode: of the goals and of the forks. -/
def load (t : Target ν) (m : Matcher ν) : Nat :=
  m.cursor.cost t m.goals + forksCost t m.forks

/-- The load before a goal is worked on. -/
def loadWith (t : Target ν) (m : Matcher ν) (goal : Goal) (rest : List Goal) : Nat :=
  m.cursor.cost t (goal :: rest) + forksCost t m.forks

theorem lt_length_of_fitting? {m : Matcher ν} {slot : Role} {child : Child ν}
    (h : m.cursor.fitting? slot = some child) :
    m.cursor.level.index < m.cursor.level.siblings.size :=
  (Array.getElem?_eq_some_iff.1 (Cursor.eq_of_fitting? h)).1

theorem load_find_lt {t : Target ν} {m next : Matcher ν} {p : Pattern} {slot : Role}
    {rest : List Goal} (h : m.find t slot rest p = some next) :
    next.load t < m.loadWith t (.find p slot) rest := by
  cases p with
  | any name =>
    cases name <;>
    · obtain ⟨child, hc, rfl⟩ := Option.map_eq_some_iff.1 h
      have := lt_length_of_fitting? hc
      simp only [load, loadWith, pass, Cursor.cost, Cursor.advance, Level.advance, goalsCost,
        Pattern.cost, this, if_true]
      omega
  | capture name inner =>
    cases h
    simp only [load, loadWith, withGoals, Cursor.cost, goalsCost, Pattern.cost]
    omega
  | optional inner =>
    cases h
    simp only [load, loadWith, withGoals, fork, forksCost, Fork.cost,
      Cursor.cost, goalsCost, Pattern.cost]
    omega
  | repetition inner min max =>
    cases h
    simp only [load, loadWith, withGoals, Cursor.cost, goalsCost, Pattern.cost, reduceCtorEq,
      if_false]
    omega
  | choice alternatives =>
    match alternatives, h with
    | [only], h =>
      cases h
      simp only [load, loadWith, withGoals, Cursor.cost, goalsCost, Pattern.cost, Pattern.costAll]
      omega
    | first :: second :: later, h =>
      cases h
      simp only [load, loadWith, withGoals, fork, forksCost, Fork.cost,
        Cursor.cost, goalsCost, Pattern.cost, Pattern.costAll]
      omega
  | backreference name =>
    obtain ⟨child, hc, h⟩ := Option.bind_eq_some_iff.1 h
    have := lt_length_of_fitting? hc
    dsimp only at h
    split at h
    · cases h
      simp only [load, loadWith, pass, Cursor.cost, Cursor.advance, Level.advance, goalsCost,
        Pattern.cost, this, if_true]
      omega
    · cases h
  | literal kind text slots =>
    obtain ⟨child, hc, h⟩ := Option.bind_eq_some_iff.1 h
    have := Cursor.eq_of_fitting? hc
    split at h
    · cases h
      simp only [load, loadWith, Cursor.cost, Cursor.enter, goalsCost, Pattern.cost, this,
        goalsCost_slots]
      omega
    · cases h
  | adapter construct inner =>
    cases h
    simp only [load, loadWith, withGoals, Cursor.cost, goalsCost, Pattern.cost]
    omega

/-- One more time of a repetition costs as much, whether what follows is priced by where the next
time stands or by how far this one came. -/
theorem cost_again (t : Target ν) (inner : Pattern) (siblings : Array (Child ν)) (i : Nat)
    (k : Nat → Nat) :
    (inner.cost t siblings i fun j =>
        if some i = some j then 1 + k j
        else iterateCost siblings.size (inner.cost t siblings) k j) =
      inner.cost t siblings i fun j =>
        if i < j ∧ j ≤ siblings.size then iterateCost siblings.size (inner.cost t siblings) k j
        else 1 + k j := by
  apply Pattern.cost_congr
  intro j hj hn
  by_cases e : i = j
  · simp [e]
  · have : i < j ∧ j ≤ siblings.size := by omega
    simp [e, this]

theorem load_again_lt (t : Target ν) (m : Matcher ν) (inner : Pattern) (min : Nat)
    (max : Option Nat) (slot : Role) (count : Nat) (since : Option Nat) (rest : List Goal) :
    (m.again inner min max slot count since rest).load t <
      m.loadWith t (.again inner min max slot count since) rest := by
  have once := cost_again t inner m.cursor.level.siblings m.cursor.level.index fun j =>
    goalsCost t rest m.cursor.level.siblings j m.cursor.outer
  have price := iterateCost.eq_1 m.cursor.level.siblings.size
    (inner.cost t m.cursor.level.siblings)
    (fun j => goalsCost t rest m.cursor.level.siblings j m.cursor.outer) m.cursor.level.index
  unfold Matcher.again
  dsimp only
  split
  · rename_i stopped
    simp only [load, loadWith, withGoals, Cursor.cost, goalsCost, stopped, if_true]
    omega
  · rename_i moved
    split
    · simp only [load, loadWith, withGoals, Cursor.cost, goalsCost, moved, if_false]
      omega
    · split
      · simp only [load, loadWith, withGoals, fork, forksCost, Fork.cost,
          Cursor.cost, goalsCost, moved, if_false]
        omega
      · simp only [load, loadWith, withGoals, Cursor.cost, goalsCost, moved, if_false]
        omega

theorem load_perform_lt {t : Target ν} {m next : Matcher ν} {goal : Goal} {rest : List Goal}
    (h : m.perform t rest goal = some next) : next.load t < m.loadWith t goal rest := by
  cases goal with
  | find p slot => exact load_find_lt h
  | record name start =>
    cases h
    simp only [load, loadWith, Cursor.cost, goalsCost]
    omega
  | again inner min max slot count since =>
    cases h
    exact load_again_lt ..
  | expect construct start =>
    simp only [perform] at h
    split at h
    · cases h
      simp only [load, loadWith, withGoals, Cursor.cost, goalsCost]
      omega
    · cases h
  | leave =>
    obtain ⟨cursor, hc, rfl⟩ := Option.map_eq_some_iff.1 h
    unfold Cursor.leave? at hc
    split at hc
    · rename_i above outer houter
      split at hc
      · cases hc
        simp only [load, loadWith, Cursor.cost, goalsCost, houter, Level.advance]
        omega
      · cases hc
    · cases hc

theorem mode_find {t : Target ν} {m next : Matcher ν} {p : Pattern} {slot : Role}
    {rest : List Goal} (h : m.find t slot rest p = some next) : next.mode = m.mode := by
  unfold find at h
  split at h
  · obtain ⟨_, _, rfl⟩ := Option.map_eq_some_iff.1 h; rfl
  · obtain ⟨_, _, rfl⟩ := Option.map_eq_some_iff.1 h; rfl
  · cases h; rfl
  · cases h; rfl
  · cases h; rfl
  · cases h
  · cases h; rfl
  · cases h; rfl
  · obtain ⟨_, _, h⟩ := Option.bind_eq_some_iff.1 h
    dsimp only at h
    split at h <;> cases h
    rfl
  · obtain ⟨_, _, h⟩ := Option.bind_eq_some_iff.1 h
    split at h <;> cases h
    rfl
  · cases h; rfl

/-- Working on a goal does not change the mode. -/
theorem mode_perform {t : Target ν} {m next : Matcher ν} {goal : Goal} {rest : List Goal}
    (h : m.perform t rest goal = some next) : next.mode = m.mode := by
  cases goal with
  | find p slot => exact mode_find h
  | record name start => cases h; rfl
  | again inner min max slot count since =>
    cases h
    unfold Matcher.again
    dsimp only
    repeat' split
    all_goals rfl
  | expect construct start =>
    simp only [perform] at h
    split at h <;> cases h
    rfl
  | leave =>
    obtain ⟨_, _, rfl⟩ := Option.map_eq_some_iff.1 h
    rfl

theorem cost_forward {t : Target ν} {m : Matcher ν} (h : m.mode = .forward) :
    m.cost t = 1 + m.load t := by
  simp only [cost, h, load]
  omega

theorem cost_backtrack_lt (t : Target ν) (m : Matcher ν) :
    m.backtrack.cost t < 1 + forksCost t m.forks := by
  unfold backtrack
  split
  · simp only [cost]; omega
  · rename_i fork older hm
    rw [hm, forksCost]
    dsimp only
    split
    · rename_i ha
      simp only [cost, Fork.cost, ha]
      omega
    · rename_i first slot ha
      simp only [cost, Fork.cost, ha, Cursor.cost, goalsCost, Pattern.costAll]
      omega
    · rename_i first second later slot ha
      simp only [cost, forksCost, Fork.cost, ha, Cursor.cost, goalsCost,
        Pattern.costAll]
      omega

/-- Every step lowers the cost. -/
theorem cost_step_lt (t : Target ν) (m : Matcher ν) (h : m.mode ≠ .finished) :
    (m.step t).2.cost t < m.cost t := by
  unfold step
  split
  · contradiction
  · rename_i hm
    have := cost_backtrack_lt t m
    simp only [cost, hm] at this ⊢
    exact this
  · rename_i hm
    split
    · rename_i hg
      have := goalsCost_pos t m.goals m.cursor.level.siblings m.cursor.level.index m.cursor.outer
      simp only [cost, hm, Cursor.cost]
      omega
    · rename_i goal rest hg
      split
      · rename_i next hn
        have lt := load_perform_lt hn
        have mode := (mode_perform hn).trans hm
        rw [cost_forward hm]
        simp only [cost, mode, load, loadWith, hg] at lt ⊢
        omega
      · have := goalsCost_pos t m.goals m.cursor.level.siblings m.cursor.level.index m.cursor.outer
        simp only [cost, hm, Cursor.cost]
        omega

end Matcher
end StructuralSearch
