import StructuralSearch.Proofs.Matching.Run

/-!
# Going back is exact

A fork keeps the length of the log at its making, not the log itself. As the log only grows until
the matcher goes back, and forks are taken up latest first, its first entries are still those of
that time: going back restores the log and the cursor that were there. What a matcher sees at any
time is therefore what one way through the pattern leads to, on which nothing is undone.
-/
namespace StructuralSearch

variable {ν : Type}

/-- The goals that a fork leaves to be tried, one list for each way. -/
def Fork.ways (fork : Fork ν) : List (List Goal) :=
  match fork.branch with
  | .goOn => [fork.goals]
  | .oneOf first later slot => (first :: later).map fun p => .find p slot :: fork.goals

/-- The fork, above the `older` ones in the stack after `k` steps, was made by step `j`: it was put
on top of those, and has stood there ever since, perhaps with fewer ways left. -/
structure MadeAt (t : Target ν) (m : Matcher ν) (fork : Fork ν) (older : List (Fork ν))
    (j k : Nat) : Prop where
  before : j < k
  below : (m.after t j).forks = older
  made : ∃ branch, (m.after t (j + 1)).forks = { fork with branch } :: older
  stands : ∀ l, j < l → l ≤ k →
    ∃ newer branch, (m.after t l).forks = newer ++ { fork with branch } :: older

/-- A fork and the log hold what the matcher had when it made the fork. -/
structure Fork.Saves (fork : Fork ν) (log : Log ν) (made : Matcher ν) : Prop where
  length : fork.logLength = made.log.length
  cursor : fork.cursor = made.cursor
  entries : log.toList.take fork.logLength = made.log.toList

namespace MadeAt

variable {t : Target ν} {m : Matcher ν} {fork : Fork ν} {older : List (Fork ν)} {i j k : Nat}

theorem le_of_le (hi : MadeAt t m fork older i k) (hj : MadeAt t m fork older j k) : j ≤ i := by
  by_contra hlt
  obtain ⟨newer, branch, hforks⟩ := hi.stands j (by omega) (Nat.le_of_lt hj.before)
  have hlength := congrArg List.length (hj.below.symm.trans hforks)
  rw [List.length_append, List.length_cons] at hlength
  omega

/-- A fork is made once. -/
theorem unique (hi : MadeAt t m fork older i k) (hj : MadeAt t m fork older j k) : i = j :=
  Nat.le_antisymm (hj.le_of_le hi) (hi.le_of_le hj)

/-- A fork that is put back was made when it first was. -/
theorem withBranch (h : MadeAt t m fork older j k) (branch : Branch) :
    MadeAt t m { fork with branch } older j k :=
  ⟨h.before, h.below, h.made, h.stands⟩

theorem succ (h : MadeAt t m fork older j k) {newer : List (Fork ν)}
    (hforks : (m.after t (k + 1)).forks = newer ++ fork :: older) :
    MadeAt t m fork older j (k + 1) where
  before := Nat.lt_succ_of_lt h.before
  below := h.below
  made := h.made
  stands l hj hl := by
    rcases Nat.le_succ_iff.1 hl with hl | rfl
    · exact h.stands l hj hl
    · exact ⟨newer, fork.branch, hforks⟩

theorem now (hforks : (m.after t (k + 1)).forks = fork :: (m.after t k).forks) :
    MadeAt t m fork (m.after t k).forks k (k + 1) where
  before := Nat.lt_succ_self k
  below := rfl
  made := ⟨fork.branch, hforks⟩
  stands l hj hl := by
    obtain rfl : l = k + 1 := by omega
    exact ⟨[], fork.branch, hforks⟩

end MadeAt

namespace Fork.Saves

variable {fork : Fork ν} {log : Log ν} {made : Matcher ν}

theorem backTo (h : fork.Saves log made) : log.backTo fork.logLength = made.log := by
  apply Log.ext_toList
  rw [Log.toList_backTo, h.entries]

/-- Adding to the log does not touch what a fork saves. -/
theorem append (h : fork.Saves log made) (hle : fork.logLength ≤ log.length) {log' : Log ν}
    {added : List (Binding ν)} (hlog : log'.toList = log.toList ++ added) :
    fork.Saves log' made where
  length := h.length
  cursor := h.cursor
  entries := by
    rw [hlog, List.take_append_of_le_length (by rwa [Log.length_toList]), h.entries]

/-- Nor does going back to a fork above it. -/
theorem goBack (h : fork.Saves log made) {length : Nat} (hle : fork.logLength ≤ length) :
    fork.Saves (log.backTo length) made where
  length := h.length
  cursor := h.cursor
  entries := by rw [Log.toList_backTo, List.take_take, Nat.min_eq_left hle, h.entries]

theorem now (m : Matcher ν) (goals : List Goal) (branch : Branch) :
    Fork.Saves ⟨m.log.length, m.cursor, goals, branch⟩ m.log m where
  length := rfl
  cursor := rfl
  entries := by rw [← Log.length_toList, List.take_length]

end Fork.Saves

namespace Matcher

/-- Each fork after `k` steps, with those below it, was made by one of the steps and saves what was
there then. -/
def AllSaved (t : Target ν) (m : Matcher ν) (k : Nat) : Prop :=
  ∀ newer fork older, (m.after t k).forks = newer ++ fork :: older →
    ∃ j, MadeAt t m fork older j k ∧ fork.Saves (m.after t k).log (m.after t j)

theorem LogsNested.logLength_le_of_append {m : Matcher ν} (h : m.LogsNested)
    {newer older : List (Fork ν)} {top fork : Fork ν}
    (hforks : m.forks = top :: newer ++ fork :: older) : fork.logLength ≤ top.logLength := by
  rw [LogsNested, hforks] at h
  have hmem : fork.logLength ∈ (newer ++ fork :: older).map (·.logLength) :=
    List.mem_map_of_mem (List.mem_append_right newer List.mem_cons_self)
  exact List.rel_of_pairwise_cons (List.pairwise_cons.1 h).2 hmem

theorem allSaved_succ {t : Target ν} {m : Matcher ν} {k : Nat} (hnested : (m.after t k).LogsNested)
    (h : AllSaved t m k) : AllSaved t m (k + 1) := by
  intro newer fork older hforks
  cases stackStep t (m.after t k) with
  | works rest work =>
    cases work with
    | adds added hsame hlog =>
      have hbefore : (m.after t k).forks = newer ++ fork :: older := hsame.symm.trans hforks
      obtain ⟨j, hmade, hsaves⟩ := h newer fork older hbefore
      have hle : fork.logLength ≤ (m.after t k).log.length :=
        hnested.le_length (by rw [hbefore]; exact List.mem_append_right _ List.mem_cons_self)
      exact ⟨j, hmade.succ hforks, hsaves.append hle hlog⟩
    | leaves branch hleft hlog =>
      have hstack := hleft.symm.trans hforks
      cases newer with
      | nil =>
        obtain ⟨rfl, rfl⟩ := List.cons.inj hstack
        refine ⟨k, .now hforks, ?_⟩
        rw [show (m.after t (k + 1)).log = (m.after t k).log from hlog]
        exact .now (m.after t k) rest branch
      | cons top newer =>
        obtain ⟨-, hbefore⟩ := List.cons.inj hstack
        obtain ⟨j, hmade, hsaves⟩ := h newer fork older hbefore
        refine ⟨j, hmade.succ hforks, ?_⟩
        rw [show (m.after t (k + 1)).log = (m.after t k).log from hlog]
        exact hsaves
  | resumes top below hmode htop hleft hlog hcursor =>
    have hlog' : (m.after t (k + 1)).log = (m.after t k).log.backTo top.logLength := hlog
    rw [hlog']
    -- A fork below the one that was taken up is where it was.
    have hdeeper : ∀ newer, below = newer ++ fork :: older →
        ∃ j, MadeAt t m fork older j (k + 1) ∧
          fork.Saves ((m.after t k).log.backTo top.logLength) (m.after t j) := by
      rintro newer' rfl
      obtain ⟨j, hmade, hsaves⟩ := h (top :: newer') fork older htop
      exact ⟨j, hmade.succ hforks, hsaves.goBack (hnested.logLength_le_of_append htop)⟩
    rcases hleft with hleft | ⟨branch, hleft⟩
    · exact hdeeper newer (hleft.symm.trans hforks)
    · have hstack := hleft.symm.trans hforks
      cases newer with
      | nil =>
        obtain ⟨rfl, rfl⟩ := List.cons.inj hstack
        obtain ⟨j, hmade, hsaves⟩ := h [] top below htop
        refine ⟨j, (hmade.withBranch branch).succ hforks, ?_⟩
        exact ⟨hsaves.length, hsaves.cursor, (hsaves.goBack (Nat.le_refl _)).entries⟩
      | cons again newer => exact hdeeper newer (List.cons.inj hstack).2

theorem allSaved_after (t : Target ν) {m : Matcher ν} (hforks : m.forks = [])
    (hnested : m.LogsNested) (k : Nat) : AllSaved t m k := by
  induction k with
  | zero =>
    intro newer fork older h
    exact absurd (hforks.symm.trans h).symm (List.append_ne_nil_of_right_ne_nil _ (List.cons_ne_nil _ _))
  | succ k ih => exact allSaved_succ (logsNested_after t hnested k) ih

/-- Going back to the latest fork restores what it saves. -/
theorem resumes_of_backward (t : Target ν) {m : Matcher ν} (hmode : m.mode = .backward)
    {fork : Fork ν} {older : List (Fork ν)} (hforks : m.forks = fork :: older) :
    (m.step t).2.log = m.log.backTo fork.logLength ∧ (m.step t).2.cursor = fork.cursor := by
  unfold step
  rw [hmode]
  dsimp only [backtrack]
  rw [hforks]
  dsimp only
  split <;> exact ⟨rfl, rfl⟩

/-- The matcher with the forks of another one below its own. -/
def onTopOf (next m : Matcher ν) : Matcher ν :=
  { next with forks := next.forks ++ m.forks, mode := m.mode, steps := m.steps }

/-- A matcher without forks. -/
def alone (goals : List Goal) (cursor : Cursor ν) (log : Log ν) : Matcher ν where
  goals := goals
  cursor := cursor
  log := log

/-- A test with one way on, in a matcher with forks below its own. -/
theorem ite_onTopOf {c : Prop} [Decidable c] (m next : Matcher ν) :
    (if c then some (next.onTopOf m) else none) =
      (if c then some next else none).map (·.onTopOf m) := by
  split <;> rfl

theorem find_alone (t : Target ν) (m : Matcher ν) (goals rest : List Goal) (slot : Role)
    (p : Pattern) :
    m.find t slot rest p =
      ((alone goals m.cursor m.log).find t slot rest p).map (·.onTopOf m) := by
  cases p with
  | any name =>
    cases name <;>
    · rw [find, find, Option.map_map]
      rfl
  | capture name inner => rfl
  | optional inner => rfl
  | repetition inner min max => rfl
  | choice alternatives => rcases alternatives with _ | ⟨first, _ | ⟨second, later⟩⟩ <;> rfl
  | backreference name =>
    rw [find, find, Option.map_bind]
    congr 1
    funext child
    exact ite_onTopOf m ((alone goals m.cursor m.log).pass rest)
  | literal kind text slots =>
    rw [find, find, Option.map_bind]
    congr 1
    funext child
    exact ite_onTopOf m (alone _ _ m.log)
  | adapter construct inner => rfl

/-- Work on a goal does not look at the forks: without them it comes out the same. -/
theorem perform_alone (t : Target ν) (m : Matcher ν) (rest : List Goal) (goal : Goal) :
    m.perform t rest goal =
      ((alone (goal :: rest) m.cursor m.log).perform t rest goal).map (·.onTopOf m) := by
  cases goal with
  | find p slot => exact find_alone t m _ rest slot p
  | record name start => rfl
  | again inner min max slot count since =>
    refine congrArg some ?_
    unfold again
    dsimp only
    rw [apply_ite (onTopOf · m), apply_ite (onTopOf · m), apply_ite (onTopOf · m)]
    rfl
  | expect construct start =>
    exact ite_onTopOf m ((alone (.expect construct start :: rest) m.cursor m.log).withGoals rest)
  | leave =>
    rw [perform, perform, Option.map_map]
    rfl

end Matcher

/-- Where one way through the pattern leads, on which nothing is undone: at each goal it goes on as
the matcher does, or the way that is left to a fork, with the cursor and the log as they are. -/
inductive OneWay (t : Target ν) (m : Matcher ν) : List Goal → Cursor ν → Log ν → Prop where
  | start : OneWay t m m.goals m.cursor m.log
  | goOn {goal : Goal} {rest : List Goal} {cursor : Cursor ν} {log : Log ν} {next : Matcher ν}
      (h : OneWay t m (goal :: rest) cursor log)
      (hnext : (Matcher.alone (goal :: rest) cursor log).perform t rest goal = some next) :
      OneWay t m next.goals next.cursor next.log
  | turn {goal : Goal} {rest goals : List Goal} {cursor : Cursor ν} {log : Log ν}
      {next : Matcher ν} {fork : Fork ν} (h : OneWay t m (goal :: rest) cursor log)
      (hnext : (Matcher.alone (goal :: rest) cursor log).perform t rest goal = some next)
      (hfork : next.forks = [fork]) (hgoals : goals ∈ fork.ways) : OneWay t m goals cursor log

namespace Matcher

/-- What a matcher has, and what its forks save, is where one way leads. -/
structure OnOneWay (t : Target ν) (m now : Matcher ν) : Prop where
  here : OneWay t m now.goals now.cursor now.log
  atForks : ∀ fork ∈ now.forks, ∀ goals ∈ fork.ways,
    OneWay t m goals fork.cursor (now.log.backTo fork.logLength)

theorem onOneWay_perform {t : Target ν} {m now next : Matcher ν} {goal : Goal} {rest : List Goal}
    (hnested : now.LogsNested) (h : OnOneWay t m now) (hgoals : now.goals = goal :: rest)
    (hnext : now.perform t rest goal = some next) : OnOneWay t m next := by
  have hhere := h.here
  rw [hgoals] at hhere
  have halone := hnext
  rw [perform_alone] at halone
  obtain ⟨own, hown, rfl⟩ := Option.map_eq_some_iff.1 halone
  have hon := hhere.goOn hown
  refine ⟨hon, ?_⟩
  cases work_of_perform hnext with
  | adds added hforks hlog =>
    rw [hforks]
    intro fork hfork goals hways
    rw [Log.backTo_of_append hlog (hnested.le_length hfork)]
    exact h.atForks fork hfork goals hways
  | leaves branch hforks hlog =>
    rw [hforks, hlog]
    refine List.forall_mem_cons.2 ⟨?_, h.atForks⟩
    intro goals hways
    have hsole : own.forks = [⟨now.log.length, now.cursor, rest, branch⟩] :=
      List.append_cancel_right hforks
    rw [Log.backTo_self]
    exact hhere.turn hown hsole hways

theorem onOneWay_backtrack {t : Target ν} {m now : Matcher ν} (hnested : now.LogsNested)
    (h : OnOneWay t m now) : OnOneWay t m now.backtrack := by
  unfold backtrack
  split
  · exact ⟨h.here, h.atForks⟩
  · rename_i fork older hforks
    have hatForks := h.atForks
    rw [hforks] at hatForks
    obtain ⟨hfork, holder⟩ := List.forall_mem_cons.1 hatForks
    have holder' : ∀ f ∈ older, ∀ goals ∈ f.ways,
        OneWay t m goals f.cursor ((now.log.backTo fork.logLength).backTo f.logLength) := by
      intro f hf goals hways
      rw [LogsNested, hforks] at hnested
      have hle := List.rel_of_pairwise_cons (List.pairwise_cons.1 hnested).2 (List.mem_map_of_mem hf)
      rw [Log.backTo_backTo _ hle]
      exact holder f hf goals hways
    unfold Fork.ways at hfork
    dsimp only
    split
    · rename_i hbranch
      rw [hbranch] at hfork
      exact ⟨hfork _ (List.mem_singleton_self _), holder'⟩
    · rename_i first slot hbranch
      rw [hbranch] at hfork
      exact ⟨hfork _ List.mem_cons_self, holder'⟩
    · rename_i first second later slot hbranch
      rw [hbranch] at hfork
      refine ⟨hfork _ List.mem_cons_self, List.forall_mem_cons.2 ⟨?_, holder'⟩⟩
      intro goals hways
      rw [Log.backTo_backTo _ (Nat.le_refl _)]
      exact hfork goals (List.mem_cons_of_mem _ hways)

theorem onOneWay_step (t : Target ν) {m now : Matcher ν} (hnested : now.LogsNested)
    (h : OnOneWay t m now) : OnOneWay t m (now.step t).2 := by
  unfold step
  split
  · exact h
  · have hback := onOneWay_backtrack hnested h
    exact ⟨hback.here, hback.atForks⟩
  · split
    · exact ⟨h.here, h.atForks⟩
    · rename_i goal rest hgoals
      split
      · rename_i next hnext
        have hon := onOneWay_perform hnested h hgoals hnext
        exact ⟨hon.here, hon.atForks⟩
      · exact ⟨h.here, h.atForks⟩

theorem onOneWay_after (t : Target ν) {m : Matcher ν} (hforks : m.forks = [])
    (hnested : m.LogsNested) (k : Nat) : OnOneWay t m (m.after t k) := by
  induction k with
  | zero =>
    refine ⟨.start, ?_⟩
    rw [after, hforks]
    exact List.forall_mem_nil _
  | succ k ih => exact onOneWay_step t (logsNested_after t hnested k) ih

end Matcher

/-- **Going back is exact.** After `k` steps the log lengths in the stack do not grow downwards, and
none is beyond the log. Each fork was made by one of the steps; it has the log's length and the
cursor of that time, and the log begins with the log of that time. So when the matcher goes back to
it, for whichever of its ways, the log and the cursor are again what they were. All that the matcher
has is where one way leads on which nothing is undone. -/
theorem going_back_is_exact (t : Target ν) (p : CheckedPattern) (siblings : List (Child ν))
    (k : Nat) :
    let m := Matcher.start p.elements siblings
    (m.after t k).LogsNested ∧
    (∀ newer fork older, (m.after t k).forks = newer ++ fork :: older →
      (∃ j, MadeAt t m fork older j k) ∧
        ∀ j, MadeAt t m fork older j k → fork.Saves (m.after t k).log (m.after t j)) ∧
    (∀ fork older, (m.after t k).mode = .backward → (m.after t k).forks = fork :: older →
      ∀ j, MadeAt t m fork older j k → (m.after t (k + 1)).log = (m.after t j).log ∧
        (m.after t (k + 1)).cursor = (m.after t j).cursor) ∧
    OneWay t m (m.after t k).goals (m.after t k).cursor (m.after t k).log := by
  intro m
  have hstart : m.LogsNested := Matcher.logsNested_start p.elements siblings
  have hsaved : Matcher.AllSaved t m k := Matcher.allSaved_after t rfl hstart k
  have hsaves : ∀ newer fork older, (m.after t k).forks = newer ++ fork :: older →
      ∀ j, MadeAt t m fork older j k → fork.Saves (m.after t k).log (m.after t j) := by
    intro newer fork older hforks j hmade
    obtain ⟨i, hmade', hsaves⟩ := hsaved newer fork older hforks
    rwa [hmade.unique hmade']
  refine ⟨Matcher.logsNested_after t hstart k, ?_, ?_,
    (Matcher.onOneWay_after t rfl hstart k).here⟩
  · intro newer fork older hforks
    obtain ⟨j, hmade, -⟩ := hsaved newer fork older hforks
    exact ⟨⟨j, hmade⟩, hsaves newer fork older hforks⟩
  · intro fork older hmode hforks j hmade
    obtain ⟨hlog, hcursor⟩ := Matcher.resumes_of_backward t hmode hforks
    have hsave := hsaves [] fork older hforks j hmade
    exact ⟨hlog.trans hsave.backTo, hcursor.trans hsave.cursor⟩

/-- One of three names for the second node, and then a third node. -/
def threeNames : CheckedPattern where
  elements := [.any (some "X"), .choice [.any (some "A"), .any (some "B"), .any (some "C")], .any none]
  captures := ["X", "A", "B", "C"]
  checked := rfl

def twoNodes : List (Child Unit) :=
  [⟨.root, ()⟩, ⟨.root, ()⟩]

/-- The fork at the second node, with the names that are left. -/
def nameFork (first : String) (later : List Pattern) : Fork Unit where
  logLength := 1
  cursor := ⟨⟨twoNodes.toArray, 1⟩, []⟩
  goals := [.find (.any none) .root]
  branch := .oneOf (.any (some first)) later .root

theorem madeAt_nameFork :
    MadeAt childless (.start threeNames.elements twoNodes) (nameFork "C" []) [] 1 7 where
  before := by decide
  below := rfl
  made := ⟨(nameFork "B" [.any (some "C")]).branch, rfl⟩
  stands l hafter hupTo := by
    obtain hearly | hlate : (l = 2 ∨ l = 3 ∨ l = 4) ∨ (l = 5 ∨ l = 6 ∨ l = 7) := by omega
    · refine ⟨[], (nameFork "B" [.any (some "C")]).branch, ?_⟩
      obtain rfl | rfl | rfl := hearly <;> rfl
    · refine ⟨[], (nameFork "C" []).branch, ?_⟩
      obtain rfl | rfl | rfl := hlate <;> rfl

/-- Of two nodes there is no third one, so the matcher goes back to the choice, and goes back to it
again: after seven steps its last name is left, and nothing is bound but the first node. -/
theorem going_back_last_name :
    let m := Matcher.start threeNames.elements twoNodes
    (m.after childless 7).mode = .backward ∧
      (m.after childless 7).forks = [] ++ nameFork "C" [] :: [] ∧
      MadeAt childless m (nameFork "C" []) [] 1 7 ∧
      (nameFork "C" []).Saves (m.after childless 7).log (m.after childless 1) ∧
      (m.after childless 8).log = (m.after childless 1).log ∧
      (m.after childless 8).cursor = (m.after childless 1).cursor := by
  obtain ⟨-, hsaved, hback, -⟩ := going_back_is_exact childless threeNames twoNodes 7
  obtain ⟨hlog, hcursor⟩ := hback (nameFork "C" []) [] rfl rfl 1 madeAt_nameFork
  have hsaves := (hsaved [] (nameFork "C" []) [] rfl).2 1 madeAt_nameFork
  exact ⟨rfl, rfl, madeAt_nameFork, hsaves, hlog, hcursor⟩

end StructuralSearch
