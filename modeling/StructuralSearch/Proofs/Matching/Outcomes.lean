import StructuralSearch.Matching.Captures
import StructuralSearch.Matching.Cursor
import StructuralSearch.Matching.Matcher
import StructuralSearch.Matching.Target

/-!
# What a pattern matches, by recursion on the pattern

An outcome of a pattern at a position among siblings is a position where it can stop, with the
captures made on the way. `Pattern.outcomes` lists the outcomes, the preferred ones first. It knows
no goals, no forks and no way back: a pattern in parts takes the outcomes of its parts one by one.
-/
namespace StructuralSearch

variable {ν : Type}

/-- Induction on a pattern, in which every alternative of a choice and every slot of a literal has
its own hypothesis. -/
theorem Pattern.induct {motive : Pattern → Prop} (any : ∀ name, motive (.any name))
    (capture : ∀ name p, motive p → motive (.capture name p))
    (optional : ∀ p, motive p → motive (.optional p))
    (repetition : ∀ p min max, motive p → motive (.repetition p min max))
    (choice : ∀ ps, (∀ p ∈ ps, motive p) → motive (.choice ps))
    (backreference : ∀ name, motive (.backreference name))
    (literal : ∀ kind text slots, (∀ s ∈ slots, motive s.2) → motive (.literal kind text slots))
    (adapter : ∀ construct p, motive p → motive (.adapter construct p)) (p : Pattern) :
    motive p :=
  @Pattern.rec motive (fun ps => ∀ p ∈ ps, motive p) (fun slots => ∀ s ∈ slots, motive s.2)
    (fun s => motive s.2) any capture optional repetition choice backreference literal adapter
    (fun _ h => nomatch h) (fun _ _ hp hps => List.forall_mem_cons.2 ⟨hp, hps⟩)
    (fun _ h => nomatch h) (fun _ _ hs hslots => List.forall_mem_cons.2 ⟨hs, hslots⟩)
    (fun _ _ hp => hp) p

/-- Where a pattern can stop among siblings, and the captures made by then. -/
structure Outcome (ν : Type) where
  index : Nat
  log : Log ν
  deriving DecidableEq

/-- The sibling at a position, if its role fits the slot. -/
def fittingAt? (siblings : Array (Child ν)) (i : Nat) (slot : Role) : Option (Child ν) :=
  siblings[i]?.filter fun child => slot.isRoot || child.role == slot

/-- The siblings from position `i` up to, and without, position `j`. -/
def between (siblings : Array (Child ν)) (i j : Nat) : List (Child ν) :=
  (siblings.extract i j).toList

/-- The outcomes of a repetition at position `i` among `n` siblings, `count` times of which are
done. Those with one more time come before the one that stops here. A time that matches no sibling
is the last; nothing else fails the test, as `InReach.eq_of_not_lt` says. -/
def repeatOutcomes (n : Nat) (once : Nat → Log ν → List (Outcome ν)) (min : Nat)
    (max : Option Nat) (count i : Nat) (log : Log ν) : List (Outcome ν) :=
  let onceMore := (once i log).flatMap fun o =>
    if i < o.index ∧ o.index ≤ n then repeatOutcomes n once min max (count + 1) o.index o.log
    else [o]
  if count < min then onceMore
  else if mayRepeat max count then onceMore ++ [⟨i, log⟩]
  else [⟨i, log⟩]
termination_by n - i

namespace Pattern

mutual

/-- The outcomes of a pattern in a slot, from position `i` among siblings and after the captures of
the log. -/
def outcomes (t : Target ν) :
    Pattern → Role → Array (Child ν) → Nat → Log ν → List (Outcome ν)
  | .any name, slot, siblings, i, log =>
    (fittingAt? siblings i slot).toList.map fun child =>
      ⟨i + 1, name.elim log fun name => log.add ⟨name, some child.node⟩⟩
  | .capture name inner, slot, siblings, i, log =>
    (outcomes t inner slot siblings i log).map fun o =>
      { o with log := o.log.addRun name ((between siblings i o.index).map (·.node)) }
  | .optional inner, slot, siblings, i, log => outcomes t inner slot siblings i log ++ [⟨i, log⟩]
  | .repetition inner min max, slot, siblings, i, log =>
    repeatOutcomes siblings.size (outcomes t inner slot siblings) min max 0 i log
  | .choice alternatives, slot, siblings, i, log =>
    outcomesOfEach t alternatives slot siblings i log
  | .backreference name, slot, siblings, i, log =>
    ((fittingAt? siblings i slot).toList.filter fun child =>
      !(log.boundTo name).isEmpty &&
        (log.boundTo name).all fun n => t.sameContent n child.node).map fun _ => ⟨i + 1, log⟩
  | .literal kind text slots, slot, siblings, i, log =>
    ((fittingAt? siblings i slot).toList.filter fun child =>
      t.kind child.node == kind && text.all (t.hasText child.node)).flatMap fun child =>
        ((outcomesInTurn t slots (t.children child.node).toArray 0 log).filter fun o =>
          o.index == (t.children child.node).length).map fun o => ⟨i + 1, o.log⟩
  | .adapter construct inner, slot, siblings, i, log =>
    (outcomes t inner slot siblings i log).filter fun o =>
      (between siblings i o.index).all fun child => child.role.accepts construct
termination_by structural p => p

/-- The outcomes of each pattern in turn. -/
def outcomesOfEach (t : Target ν) :
    List Pattern → Role → Array (Child ν) → Nat → Log ν → List (Outcome ν)
  | [], _, _, _, _ => []
  | p :: ps, slot, siblings, i, log =>
    outcomes t p slot siblings i log ++ outcomesOfEach t ps slot siblings i log
termination_by structural ps => ps

/-- The outcomes of patterns in their slots, each from where the one before it stopped. -/
def outcomesInTurn (t : Target ν) :
    List (Role × Pattern) → Array (Child ν) → Nat → Log ν → List (Outcome ν)
  | [], _, i, log => [⟨i, log⟩]
  | (slot, p) :: rest, siblings, i, log =>
    (outcomes t p slot siblings i log).flatMap fun o =>
      outcomesInTurn t rest siblings o.index o.log
termination_by structural slots => slots

end

theorem outcomesOfEach_eq_flatMap (t : Target ν) (ps : List Pattern) (slot : Role)
    (siblings : Array (Child ν)) (i : Nat) (log : Log ν) :
    outcomesOfEach t ps slot siblings i log =
      ps.flatMap fun p => outcomes t p slot siblings i log := by
  induction ps with
  | nil => rfl
  | cons p ps ih => rw [outcomesOfEach, ih, List.flatMap_cons]

end Pattern

theorem getElem?_of_fittingAt? {siblings : Array (Child ν)} {i : Nat} {slot : Role}
    {child : Child ν} (h : fittingAt? siblings i slot = some child) : siblings[i]? = some child :=
  Option.eq_some_of_filter_eq_some h

theorem lt_size_of_fittingAt? {siblings : Array (Child ν)} {i : Nat} {slot : Role}
    {child : Child ν} (h : fittingAt? siblings i slot = some child) : i < siblings.size :=
  (Array.getElem?_eq_some_iff.1 (getElem?_of_fittingAt? h)).1

theorem between_self (siblings : Array (Child ν)) (i : Nat) : between siblings i i = [] := by
  rw [between, Array.extract_eq_empty_of_le (Nat.min_le_left i siblings.size)]

theorem between_succ {siblings : Array (Child ν)} {i : Nat} {child : Child ν}
    (h : siblings[i]? = some child) : between siblings i (i + 1) = [child] := by
  obtain ⟨hi, rfl⟩ := Array.getElem?_eq_some_iff.1 h
  rw [between, Array.extract_succ_right (Nat.lt_succ_self i) hi, Array.toList_push]
  exact congrArg (· ++ _) (between_self siblings i)

theorem between_append {siblings : Array (Child ν)} {i j k : Nat} (hij : i ≤ j) (hjk : j ≤ k) :
    between siblings i j ++ between siblings j k = between siblings i k := by
  rw [between, between, between, ← Array.toList_append, Array.extract_append_extract,
    Nat.min_eq_left hij, Nat.max_eq_right hjk]

theorem between_all (siblings : List (Child ν)) :
    between siblings.toArray 0 siblings.length = siblings := by
  rw [between, ← List.size_toArray, Array.extract_size]

theorem mem_of_mem_between {siblings : Array (Child ν)} {i j : Nat} {child : Child ν}
    (h : child ∈ between siblings i j) : child ∈ siblings := by
  obtain ⟨k, hk, rfl⟩ := Array.mem_extract_iff_getElem.1 (Array.mem_toList_iff.1 h)
  exact Array.getElem_mem _

/-- The next of the siblings, and those after it. -/
theorem getElem?_and_drop_of_drop_eq_cons {α : Type} {as : Array α} {i : Nat} {a : α}
    {rest : List α} (h : as.toList.drop i = a :: rest) :
    as[i]? = some a ∧ as.toList.drop (i + 1) = rest := by
  constructor
  · rw [← Array.getElem?_toList, ← List.head?_drop, h, List.head?_cons]
  · rw [← List.tail_drop, h, List.tail_cons]

/-- A position that can be reached from position `i` among `n` siblings. -/
def InReach (n i j : Nat) : Prop :=
  i ≤ j ∧ j ≤ max i n

theorem InReach.refl (n i : Nat) : InReach n i i :=
  ⟨Nat.le_refl i, Nat.le_max_left i n⟩

theorem InReach.trans {n i j k : Nat} (hij : InReach n i j) (hjk : InReach n j k) :
    InReach n i k := by
  unfold InReach at *
  omega

theorem InReach.succ {n i : Nat} (h : i < n) : InReach n i (i + 1) := by
  unfold InReach
  omega

theorem length_between {siblings : Array (Child ν)} {i j : Nat} (h : InReach siblings.size i j) :
    (between siblings i j).length = j - i := by
  rw [InReach] at h
  rw [between, Array.length_toList, Array.size_extract]
  omega

/-- A time of a repetition gets further, or it stops where it began. -/
theorem InReach.eq_of_not_lt {n i j : Nat} (h : InReach n i j) (hn : ¬(i < j ∧ j ≤ n)) : j = i := by
  unfold InReach at h
  omega

/-- A repetition stops here when it has the times that it needs, or it goes on with one more time
when it lacks some or may have more. -/
theorem mem_repeatOutcomes {n : Nat} {once : Nat → Log ν → List (Outcome ν)} {min : Nat}
    {max : Option Nat} {count i : Nat} {log : Log ν} {o : Outcome ν} :
    o ∈ repeatOutcomes n once min max count i log ↔
      (¬count < min ∧ o = ⟨i, log⟩) ∨
      ((count < min ∨ mayRepeat max count) ∧ ∃ first ∈ once i log,
        o ∈ if i < first.index ∧ first.index ≤ n then
          repeatOutcomes n once min max (count + 1) first.index first.log else [first]) := by
  rw [repeatOutcomes]
  by_cases hmin : count < min
  · simp only [hmin, if_true, List.mem_flatMap, not_true, false_and, false_or, true_or, true_and]
  · by_cases hmax : mayRepeat max count
    · simp only [hmin, hmax, if_true, if_false, List.mem_append, List.mem_flatMap,
        List.mem_singleton, not_false_eq_true, true_and, false_or]
      exact or_comm
    · simp only [hmin, hmax, if_false, List.mem_singleton, not_false_eq_true, true_and,
        Bool.false_eq_true, false_and, or_false]

/-- Induction on how an outcome of a repetition comes about: it stops here, or the time that it
does here gets no further, or that time does and the rest of the repetition goes on from there. -/
theorem repeatOutcomes_induct {n : Nat} {once : Nat → Log ν → List (Outcome ν)} {min : Nat}
    {max : Option Nat} {motive : Nat → Nat → Log ν → Outcome ν → Prop}
    (stop : ∀ count i log, ¬count < min → motive count i log ⟨i, log⟩)
    (last : ∀ count i log, ∀ o ∈ once i log, (count < min ∨ mayRepeat max count) →
      ¬(i < o.index ∧ o.index ≤ n) → motive count i log o)
    (more : ∀ count i log, ∀ first ∈ once i log, ∀ o, (count < min ∨ mayRepeat max count) →
      i < first.index ∧ first.index ≤ n → motive (count + 1) first.index first.log o →
      motive count i log o)
    {count i : Nat} {log : Log ν} {o : Outcome ν}
    (h : o ∈ repeatOutcomes n once min max count i log) : motive count i log o := by
  induction hd : n - i using Nat.strongRecOn generalizing count i log o with
  | ind d ih =>
    rcases mem_repeatOutcomes.1 h with ⟨hmin, rfl⟩ | ⟨hcount, first, hfirst, ho⟩
    · exact stop count i log hmin
    · split at ho
      · rename_i further
        exact more count i log first hfirst o hcount further
          (ih (n - first.index) (by omega) ho rfl)
      · rename_i hlast
        obtain rfl := List.mem_singleton.1 ho
        exact last count i log o hfirst hcount hlast

/-- A relation that leads from a place to itself, and over one place to the next, leads to all
outcomes of a repetition when it leads to those of each time. -/
theorem rel_of_mem_repeatOutcomes {R : Outcome ν → Outcome ν → Prop} (refl : ∀ o, R o o)
    (trans : ∀ o o' o'', R o o' → R o' o'' → R o o'') {n : Nat}
    {once : Nat → Log ν → List (Outcome ν)} (honce : ∀ i log, ∀ o ∈ once i log, R ⟨i, log⟩ o)
    {min : Nat} {max : Option Nat} {count i : Nat} {log : Log ν} {o : Outcome ν}
    (h : o ∈ repeatOutcomes n once min max count i log) : R ⟨i, log⟩ o := by
  refine repeatOutcomes_induct (motive := fun _ i log o => R ⟨i, log⟩ o) ?_ ?_ ?_ h
  · intro _ i log _
    exact refl ⟨i, log⟩
  · intro _ i log o ho _ _
    exact honce i log o ho
  · intro _ i log first hfirst o _ _ hrest
    exact trans _ first o (honce i log first hfirst) hrest

theorem inReach_repeatOutcomes {n : Nat} {once : Nat → Log ν → List (Outcome ν)}
    (honce : ∀ i log, ∀ o ∈ once i log, InReach n i o.index) {min : Nat} {max : Option Nat}
    {count i : Nat} {log : Log ν} {o : Outcome ν}
    (h : o ∈ repeatOutcomes n once min max count i log) : InReach n i o.index :=
  rel_of_mem_repeatOutcomes (R := fun o o' => InReach n o.index o'.index)
    (fun o => .refl n o.index) (fun _ _ _ => .trans) honce h

namespace Pattern

/-- A pattern stops where it began or further on, and not beyond the last sibling. -/
theorem inReach_outcomes (t : Target ν) (p : Pattern) (slot : Role) (siblings : Array (Child ν))
    (i : Nat) (log : Log ν) :
    ∀ o ∈ outcomes t p slot siblings i log, InReach siblings.size i o.index := by
  induction p using Pattern.induct generalizing slot siblings i log with
  | any name =>
    intro o ho
    obtain ⟨child, hchild, rfl⟩ := List.mem_map.1 ho
    exact .succ (lt_size_of_fittingAt? (Option.mem_toList.1 hchild))
  | capture name p ih =>
    intro o ho
    obtain ⟨inner, hinner, rfl⟩ := List.mem_map.1 ho
    exact ih slot siblings i log inner hinner
  | optional p ih =>
    intro o ho
    rcases List.mem_append.1 ho with ho | ho
    · exact ih slot siblings i log o ho
    · obtain rfl := List.mem_singleton.1 ho
      exact .refl siblings.size i
  | repetition p min max ih =>
    intro o ho
    exact inReach_repeatOutcomes (ih slot siblings) ho
  | choice ps ih =>
    intro o ho
    rw [outcomes, outcomesOfEach_eq_flatMap] at ho
    obtain ⟨p, hp, ho⟩ := List.mem_flatMap.1 ho
    exact ih p hp slot siblings i log o ho
  | backreference name =>
    intro o ho
    obtain ⟨child, hchild, rfl⟩ := List.mem_map.1 ho
    exact .succ (lt_size_of_fittingAt? (Option.mem_toList.1 (List.mem_filter.1 hchild).1))
  | literal kind text slots ih =>
    intro o ho
    obtain ⟨child, hchild, ho⟩ := List.mem_flatMap.1 ho
    obtain ⟨inner, hinner, rfl⟩ := List.mem_map.1 ho
    exact .succ (lt_size_of_fittingAt? (Option.mem_toList.1 (List.mem_filter.1 hchild).1))
  | adapter construct p ih =>
    intro o ho
    exact ih slot siblings i log o (List.mem_filter.1 ho).1

/-- The same for patterns in turn: the relation leads to their outcomes when it leads to those of
each. -/
theorem rel_of_mem_outcomesInTurn {R : Outcome ν → Outcome ν → Prop} (refl : ∀ o, R o o)
    (trans : ∀ o o' o'', R o o' → R o' o'' → R o o'') {t : Target ν}
    {slots : List (Role × Pattern)} {siblings : Array (Child ν)}
    (hslots : ∀ s ∈ slots, ∀ i log, ∀ o ∈ outcomes t s.2 s.1 siblings i log, R ⟨i, log⟩ o)
    {i : Nat} {log : Log ν} {o : Outcome ν} (ho : o ∈ outcomesInTurn t slots siblings i log) :
    R ⟨i, log⟩ o := by
  induction slots generalizing i log with
  | nil =>
    obtain rfl := List.mem_singleton.1 ho
    exact refl _
  | cons s rest ih =>
    obtain ⟨hs, hrest⟩ := List.forall_mem_cons.1 hslots
    obtain ⟨first, hfirst, ho⟩ := List.mem_flatMap.1 ho
    exact trans _ first o (hs i log first hfirst) (ih hrest ho)

theorem inReach_outcomesInTurn (t : Target ν) (slots : List (Role × Pattern))
    (siblings : Array (Child ν)) (i : Nat) (log : Log ν) :
    ∀ o ∈ outcomesInTurn t slots siblings i log, InReach siblings.size i o.index :=
  fun _ ho => rel_of_mem_outcomesInTurn (R := fun o o' => InReach siblings.size o.index o'.index)
    (fun o => .refl _ o.index) (fun _ _ _ => .trans)
    (fun s _ => inReach_outcomes t s.2 s.1 siblings) ho

end Pattern

/-- Every node bound in the log is inside. -/
def Log.Within (inside : ν → Prop) (log : Log ν) : Prop :=
  ∀ b ∈ log.toList, ∀ n ∈ b.node, inside n

theorem Log.within_empty (inside : ν → Prop) : (Log.empty : Log ν).Within inside :=
  fun _ h => nomatch h

theorem Log.Within.addRun {inside : ν → Prop} {log : Log ν} (h : log.Within inside)
    (name : String) {nodes : List ν} (hnodes : ∀ n ∈ nodes, inside n) :
    (log.addRun name nodes).Within inside := by
  intro b hb n hn
  rw [Log.toList_addRun] at hb
  rcases List.mem_append.1 hb with hb | hb
  · exact h b hb n hn
  · cases nodes with
    | nil =>
      obtain rfl := List.mem_singleton.1 hb
      exact nomatch hn
    | cons first rest =>
      obtain ⟨m, hm, rfl⟩ := List.mem_map.1 hb
      obtain rfl := Option.mem_some.1 hn
      exact hnodes m hm

theorem inside_of_fittingAt? {inside : ν → Prop} {siblings : Array (Child ν)}
    (hsiblings : ∀ c ∈ siblings, inside c.node) {i : Nat} {slot : Role} {child : Child ν}
    (h : fittingAt? siblings i slot = some child) : inside child.node :=
  hsiblings child (Array.mem_of_getElem? (getElem?_of_fittingAt? h))

theorem within_repeatOutcomes {inside : ν → Prop} {n : Nat}
    {once : Nat → Log ν → List (Outcome ν)}
    (honce : ∀ i log, log.Within inside → ∀ o ∈ once i log, o.log.Within inside) {min : Nat}
    {max : Option Nat} {count i : Nat} {log : Log ν} {o : Outcome ν}
    (h : o ∈ repeatOutcomes n once min max count i log) (hlog : log.Within inside) :
    o.log.Within inside :=
  rel_of_mem_repeatOutcomes (R := fun o o' => o.log.Within inside → o'.log.Within inside)
    (fun _ hin => hin) (fun _ _ _ hfirst hrest hin => hrest (hfirst hin))
    (fun i log o ho hin => honce i log hin o ho) h hlog

namespace Pattern

theorem within_outcomesInTurn {t : Target ν} {inside : ν → Prop} {slots : List (Role × Pattern)}
    (hslots : ∀ s ∈ slots, ∀ slot siblings i log, (∀ c ∈ siblings, inside c.node) →
      log.Within inside → ∀ o ∈ outcomes t s.2 slot siblings i log, o.log.Within inside)
    {siblings : Array (Child ν)} (hsiblings : ∀ c ∈ siblings, inside c.node) {i : Nat}
    {log : Log ν} (hlog : log.Within inside) :
    ∀ o ∈ outcomesInTurn t slots siblings i log, o.log.Within inside :=
  fun _ ho => rel_of_mem_outcomesInTurn
    (R := fun o o' => o.log.Within inside → o'.log.Within inside)
    (fun _ hin => hin) (fun _ _ _ hfirst hrest hin => hrest (hfirst hin))
    (fun s hs i log o ho hin => hslots s hs s.1 siblings i log hsiblings hin o ho) ho hlog

/-- Where the children of what is inside are inside too, so are the nodes that a pattern binds. -/
theorem within_outcomes (t : Target ν) {inside : ν → Prop}
    (hbelow : ∀ n, inside n → ∀ c ∈ t.children n, inside c.node) (p : Pattern) (slot : Role)
    (siblings : Array (Child ν)) (i : Nat) (log : Log ν)
    (hsiblings : ∀ c ∈ siblings, inside c.node) (hlog : log.Within inside) :
    ∀ o ∈ outcomes t p slot siblings i log, o.log.Within inside := by
  induction p using Pattern.induct generalizing slot siblings i log with
  | any name =>
    intro o ho
    obtain ⟨child, hchild, rfl⟩ := List.mem_map.1 ho
    cases name with
    | none => exact hlog
    | some name =>
      have hin : inside child.node := inside_of_fittingAt? hsiblings (Option.mem_toList.1 hchild)
      exact hlog.addRun name (List.forall_mem_singleton.2 hin)
  | capture name p ih =>
    intro o ho
    obtain ⟨inner, hinner, rfl⟩ := List.mem_map.1 ho
    refine (ih slot siblings i log hsiblings hlog inner hinner).addRun name ?_
    intro n hn
    obtain ⟨child, hchild, rfl⟩ := List.mem_map.1 hn
    exact hsiblings child (mem_of_mem_between hchild)
  | optional p ih =>
    intro o ho
    rcases List.mem_append.1 ho with ho | ho
    · exact ih slot siblings i log hsiblings hlog o ho
    · obtain rfl := List.mem_singleton.1 ho
      exact hlog
  | repetition p min max ih =>
    intro o ho
    exact within_repeatOutcomes (fun i log h => ih slot siblings i log hsiblings h) ho hlog
  | choice ps ih =>
    intro o ho
    rw [outcomes, outcomesOfEach_eq_flatMap] at ho
    obtain ⟨p, hp, ho⟩ := List.mem_flatMap.1 ho
    exact ih p hp slot siblings i log hsiblings hlog o ho
  | backreference name =>
    intro o ho
    obtain ⟨child, -, rfl⟩ := List.mem_map.1 ho
    exact hlog
  | literal kind text slots ih =>
    intro o ho
    obtain ⟨child, hchild, ho⟩ := List.mem_flatMap.1 ho
    obtain ⟨inner, hinner, rfl⟩ := List.mem_map.1 ho
    have hin : inside child.node :=
      inside_of_fittingAt? hsiblings (Option.mem_toList.1 (List.mem_filter.1 hchild).1)
    have hchildren : ∀ c ∈ (t.children child.node).toArray, inside c.node := by
      intro c hc
      exact hbelow child.node hin c (List.mem_toArray.1 hc)
    exact within_outcomesInTurn ih hchildren hlog inner (List.mem_filter.1 hinner).1
  | adapter construct p ih =>
    intro o ho
    exact ih slot siblings i log hsiblings hlog o (List.mem_filter.1 ho).1

end Pattern

/-- The patterns one after the other, in no slot. -/
def inNoSlot (elements : List Pattern) : List (Role × Pattern) :=
  elements.map fun p => (.root, p)

/-- The matches of elements with siblings: what the outcomes have captured that leave no sibling
over. -/
def matchesOf (t : Target ν) (elements : List Pattern) (siblings : List (Child ν)) :
    List (Match ν) :=
  ((Pattern.outcomesInTurn t (inNoSlot elements) siblings.toArray 0 .empty).filter fun o =>
    o.index == siblings.length).map fun o => .ofLog o.log

/-- A match binds nothing but nodes among the siblings and below them. -/
theorem within_of_mem_matchesOf {t : Target ν} {inside : ν → Prop}
    (hbelow : ∀ n, inside n → ∀ c ∈ t.children n, inside c.node) {elements : List Pattern}
    {siblings : List (Child ν)} (hsiblings : ∀ c ∈ siblings, inside c.node) {m : Match ν}
    (h : m ∈ matchesOf t elements siblings) : ∀ c ∈ m.captures, ∀ n ∈ c.2, inside n := by
  obtain ⟨o, ho, rfl⟩ := List.mem_map.1 h
  have hwithin : o.log.Within inside := by
    refine Pattern.within_outcomesInTurn ?_ ?_ (Log.within_empty inside) o (List.mem_filter.1 ho).1
    · intro s _ slot siblings i log
      exact Pattern.within_outcomes t hbelow s.2 slot siblings i log
    · intro c hc
      exact hsiblings c (List.mem_toArray.1 hc)
  intro c hc n hn
  obtain ⟨name, -, rfl⟩ := List.mem_map.1 hc
  obtain ⟨b, hb, hbn⟩ := List.mem_filterMap.1 hn
  split at hbn
  · exact hwithin b hb n hbn
  · cases hbn

end StructuralSearch
