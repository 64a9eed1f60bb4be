import StructuralSearch.Proofs.Matching.BoundNames

/-!
# The order of repetitions

At each time of a repetition one of the outcomes of what is repeated is taken. The numbers of these
outcomes, one for each time, are the course of the repetition. Matches come course by course: a
course comes after those that continue it, and of two courses that part, the one that takes the
earlier outcome there comes first. So longer courses come before all shorter ones where what is
repeated has one outcome at a place. Where it has several, a short course that begins with the first
of them comes before the long courses that begin with the second.
-/
namespace StructuralSearch

variable {ν : Type}

/-- The course comes before the other one: it continues it, or it takes an earlier outcome where the
two part. -/
def Preferred (course other : List Nat) : Prop :=
  List.Lex (· > ·) other course

/-- So many times lie within the bounds of a repetition. -/
def InBounds (min : Nat) (max : Option Nat) (count : Nat) : Prop :=
  min ≤ count ∧ ∀ limit ∈ max, count ≤ limit

section Courses

variable {once : Nat → Log ν → List (Outcome ν)} {min count : Nat} {max : Option Nat}
  {o o' first : Outcome ν} {course other : List Nat}

/-- Where a course leads to, if there are outcomes of its numbers on the way. -/
def follow? (once : Nat → Log ν → List (Outcome ν)) : List Nat → Outcome ν → Option (Outcome ν)
  | [], o => some o
  | c :: course, o => (once o.index o.log)[c]?.bind (follow? once course)

/-- Some course leads from one place to the other. -/
def Reaches (once : Nat → Log ν → List (Outcome ν)) (o o' : Outcome ν) : Prop :=
  ∃ course, follow? once course o = some o'

/-- Wherever courses lead to, each time takes one sibling. -/
def TakesOneEach (once : Nat → Log ν → List (Outcome ν)) (start : Outcome ν) : Prop :=
  ∀ o, Reaches once start o → ∀ next ∈ once o.index o.log, next.index = o.index + 1

/-- Wherever courses lead to, there is at most one outcome to take. -/
def OneWayEach (once : Nat → Log ν → List (Outcome ν)) (start : Outcome ν) : Prop :=
  ∀ o, Reaches once start o → (once o.index o.log).length ≤ 1

theorem Reaches.refl (once : Nat → Log ν → List (Outcome ν)) (o : Outcome ν) : Reaches once o o :=
  ⟨[], rfl⟩

theorem Reaches.cons (hfirst : first ∈ once o.index o.log) (h : Reaches once first o') :
    Reaches once o o' := by
  obtain ⟨course, hcourse⟩ := h
  obtain ⟨c, hc⟩ := List.getElem?_of_mem hfirst
  refine ⟨c :: course, ?_⟩
  rw [follow?, hc]
  exact hcourse

/-- A property of the place where courses begin that each time keeps. -/
theorem Reaches.induct {motive : Outcome ν → Prop}
    (step : ∀ o, motive o → ∀ next ∈ once o.index o.log, motive next) (h : Reaches once o o')
    (start : motive o) : motive o' := by
  obtain ⟨course, hcourse⟩ := h
  induction course generalizing o with
  | nil =>
    obtain rfl := Option.some.inj hcourse
    exact start
  | cons c course ih =>
    obtain ⟨first, hfirst, hrest⟩ := Option.bind_eq_some_iff.1 hcourse
    exact ih (step o start first (List.mem_of_getElem? hfirst)) hrest

theorem TakesOneEach.next (h : TakesOneEach once o) (hfirst : first ∈ once o.index o.log) :
    TakesOneEach once first :=
  fun o' hreaches => h o' (hreaches.cons hfirst)

theorem OneWayEach.next (h : OneWayEach once o) (hfirst : first ∈ once o.index o.log) :
    OneWayEach once first :=
  fun o' hreaches => h o' (hreaches.cons hfirst)

/-- A course takes as many siblings as it has times. -/
theorem TakesOneEach.index_eq (h : TakesOneEach once o) (hcourse : follow? once course o = some o') :
    o'.index = o.index + course.length := by
  induction course generalizing o with
  | nil =>
    obtain rfl := Option.some.inj hcourse
    rfl
  | cons c course ih =>
    obtain ⟨first, hfirst, hrest⟩ := Option.bind_eq_some_iff.1 hcourse
    have hmem := List.mem_of_getElem? hfirst
    rw [ih (h.next hmem) hrest, h o (.refl once o) first hmem, List.length_cons]
    omega

/-- Courses without a second way differ in length only. -/
theorem OneWayEach.length_le (h : OneWayEach once o) (hpreferred : Preferred course other)
    (hother : (follow? once other o).isSome) : other.length ≤ course.length := by
  induction hpreferred generalizing o with
  | nil => exact Nat.zero_le _
  | @rel c d course other hlt =>
    obtain ⟨_, hfollow⟩ := Option.isSome_iff_exists.1 hother
    obtain ⟨first, hfirst, -⟩ := Option.bind_eq_some_iff.1 hfollow
    have hbound := (List.getElem?_eq_some_iff.1 hfirst).1
    have hone := h o (.refl once o)
    omega
  | @cons c course other _ ih =>
    obtain ⟨_, hfollow⟩ := Option.isSome_iff_exists.1 hother
    obtain ⟨first, hfirst, hrest⟩ := Option.bind_eq_some_iff.1 hfollow
    have hle := ih (h.next (List.mem_of_getElem? hfirst)) (Option.isSome_iff_exists.2 ⟨_, hrest⟩)
    exact Nat.succ_le_succ hle

/-- Courses by their first outcome, each followed by one of the courses from there. -/
def coursesByFirst (firsts : List (Outcome ν)) (later : Outcome ν → List (List Nat)) :
    List (List Nat) :=
  firsts.zipIdx.flatMap fun first => (later first.1).map (first.2 :: ·)

theorem mem_coursesByFirst {firsts : List (Outcome ν)} {later : Outcome ν → List (List Nat)} :
    course ∈ coursesByFirst firsts later ↔
      ∃ c rest first, firsts[c]? = some first ∧ rest ∈ later first ∧ course = c :: rest := by
  rw [coursesByFirst, List.mem_flatMap]
  constructor
  · rintro ⟨⟨first, c⟩, hfirst, hcourse⟩
    obtain ⟨rest, hrest, rfl⟩ := List.mem_map.1 hcourse
    exact ⟨c, rest, first, List.mem_zipIdx_iff_getElem?.1 hfirst, hrest, rfl⟩
  · rintro ⟨c, rest, first, hfirst, hrest, rfl⟩
    exact ⟨(first, c), List.mem_zipIdx_iff_getElem?.2 hfirst, List.mem_map_of_mem hrest⟩

theorem pairwise_coursesByFirst {firsts : List (Outcome ν)} {later : Outcome ν → List (List Nat)}
    (hlater : ∀ first ∈ firsts, (later first).Pairwise Preferred) :
    (coursesByFirst firsts later).Pairwise Preferred := by
  refine List.pairwise_flatMap.2 ⟨?_, ?_⟩
  · intro first hfirst
    have hmem := List.mem_of_getElem? (List.mem_zipIdx_iff_getElem?.1 hfirst)
    exact List.pairwise_map.2 ((hlater first.1 hmem).imp .cons)
  · have hnumbers : firsts.zipIdx.Pairwise fun a b => a.2 < b.2 := by
      rw [← List.pairwise_map, List.zipIdx_map_snd]
      exact List.pairwise_lt_range'
    refine hnumbers.imp fun {a b} hlt course hcourse other hother => ?_
    obtain ⟨rest, -, rfl⟩ := List.mem_map.1 hcourse
    obtain ⟨rest', -, rfl⟩ := List.mem_map.1 hother
    exact .rel hlt

theorem filterMap_coursesByFirst (later : Outcome ν → List (List Nat)) :
    (coursesByFirst (once o.index o.log) later).filterMap (follow? once · o) =
      (once o.index o.log).flatMap fun first => (later first).filterMap (follow? once · first) := by
  have hfirst : ∀ first ∈ (once o.index o.log).zipIdx,
      ((later first.1).map (first.2 :: ·)).filterMap (follow? once · o) =
        (later first.1).filterMap (follow? once · first.1) := by
    intro first hfirst
    rw [List.filterMap_map]
    refine List.filterMap_congr fun course _ => ?_
    show follow? once (first.2 :: course) o = _
    rw [follow?, List.mem_zipIdx_iff_getElem?.1 hfirst]
    rfl
  rw [coursesByFirst, List.filterMap_flatMap, List.flatMap_congr hfirst]
  conv_rhs => rw [← List.zipIdx_map_fst 0 (once o.index o.log), List.flatMap_map]

/-- The courses that a repetition can take from a place on, after `count` times: those that bring it
within its bounds, the preferred ones first. -/
structure Courses (once : Nat → Log ν → List (Outcome ν)) (min : Nat) (max : Option Nat) (count : Nat)
    (o : Outcome ν) (courses : List (List Nat)) : Prop where
  mem_iff : ∀ course, course ∈ courses ↔
    (follow? once course o).isSome ∧ InBounds min max (count + course.length)
  inOrder : courses.Pairwise Preferred

/-- Stopping comes after all courses with one more time. -/
theorem Courses.stop {longer : List (List Nat)} (h : Courses once (count + 1) max count o longer)
    (hmin : min ≤ count) (hmax : ∀ limit ∈ max, count ≤ limit) :
    Courses once min max count o (longer ++ [[]]) where
  mem_iff course := by
    rw [List.mem_append, h.mem_iff, List.mem_singleton]
    constructor
    · rintro (⟨hfollow, hcount⟩ | rfl)
      · exact ⟨hfollow, Nat.le_trans hmin (Nat.le_of_succ_le hcount.1), hcount.2⟩
      · exact ⟨rfl, hmin, hmax⟩
    · rintro ⟨hfollow, hcount⟩
      cases course with
      | nil => exact .inr rfl
      | cons c course => exact .inl ⟨hfollow, Nat.add_le_add_left (Nat.succ_pos _) count, hcount.2⟩
  inOrder := by
    refine List.pairwise_append.2 ⟨h.inOrder, List.pairwise_singleton _ _, ?_⟩
    intro course hcourse other hother
    obtain rfl := List.mem_singleton.1 hother
    have hlonger := ((h.mem_iff course).1 hcourse).2.1
    cases course with
    | nil => exact absurd hlonger (Nat.not_succ_le_self count)
    | cons c course => exact .nil

theorem courses_nil (h : ¬mayRepeat max count) : Courses once (count + 1) max count o [] where
  mem_iff course := by
    refine iff_of_false List.not_mem_nil ?_
    rintro ⟨-, hcount, hmax⟩
    exact h (mayRepeat_iff.2 fun limit hlimit => Nat.le_trans hcount (hmax limit hlimit))
  inOrder := .nil

/-- The courses with one more time, when there are courses from wherever that time can lead. -/
theorem exists_longer_courses {n : Nat} (hreach : ∀ i log, ∀ o ∈ once i log, InReach n i o.index)
    (hone : TakesOneEach once o)
    (hlater : ∀ first ∈ once o.index o.log, ∃ courses,
      Courses once min max (count + 1) first courses ∧
      repeatOutcomes n once min max (count + 1) first.index first.log =
        courses.filterMap (follow? once · first)) :
    ∃ longer, Courses once (Nat.max min (count + 1)) max count o longer ∧
      ((once o.index o.log).flatMap fun first =>
        if o.index < first.index ∧ first.index ≤ n then
          repeatOutcomes n once min max (count + 1) first.index first.log
        else [first]) = longer.filterMap (follow? once · o) := by
  choose! later hcourses houtcomes using hlater
  have hlength (c : Nat) (rest : List Nat) :
      count + (c :: rest).length = count + 1 + rest.length := by
    rw [List.length_cons, Nat.add_comm rest.length, Nat.add_assoc]
  refine ⟨coursesByFirst (once o.index o.log) later, ⟨fun course => ?_,
    pairwise_coursesByFirst fun first hfirst => (hcourses first hfirst).inOrder⟩, ?_⟩
  · rw [mem_coursesByFirst]
    constructor
    · rintro ⟨c, rest, first, hfirst, hrest, rfl⟩
      obtain ⟨hfollow, hmin, hmax⟩ :=
        ((hcourses first (List.mem_of_getElem? hfirst)).mem_iff rest).1 hrest
      refine ⟨?_, ?_⟩
      · rw [follow?, hfirst]
        exact hfollow
      · rw [hlength]
        exact ⟨Nat.max_le.2 ⟨hmin, Nat.le_add_right _ _⟩, hmax⟩
    · rintro ⟨hfollow, hcount⟩
      cases course with
      | nil => exact absurd (Nat.max_le.1 hcount.1).2 (Nat.not_succ_le_self count)
      | cons c rest =>
        obtain ⟨_, hfollow⟩ := Option.isSome_iff_exists.1 hfollow
        obtain ⟨first, hfirst, hrest⟩ := Option.bind_eq_some_iff.1 hfollow
        rw [hlength] at hcount
        have hin := (hcourses first (List.mem_of_getElem? hfirst)).mem_iff rest
        exact ⟨c, rest, first, hfirst, hin.2 ⟨Option.isSome_iff_exists.2 ⟨_, hrest⟩,
          (Nat.max_le.1 hcount.1).1, hcount.2⟩, rfl⟩
  · rw [filterMap_coursesByFirst]
    refine List.flatMap_congr fun first hfirst => ?_
    have hindex := hone o (.refl once o) first hfirst
    have hwithin := hreach o.index o.log first hfirst
    rw [InReach] at hwithin
    rw [if_pos (by omega), houtcomes first hfirst]

/-- A repetition has an outcome for each of its courses, in their order. -/
theorem exists_courses {n : Nat} (hreach : ∀ i log, ∀ o ∈ once i log, InReach n i o.index)
    (hbounds : ∀ limit ∈ max, min ≤ limit) (hcount : ∀ limit ∈ max, count ≤ limit)
    (hone : TakesOneEach once o) :
    ∃ courses, Courses once min max count o courses ∧
      repeatOutcomes n once min max count o.index o.log = courses.filterMap (follow? once · o) := by
  induction hd : n - o.index using Nat.strongRecOn generalizing count o with
  | ind d ih =>
    have hlonger (hnext : ∀ limit ∈ max, count + 1 ≤ limit) :=
      exists_longer_courses hreach hone fun first hfirst => by
        have hindex := hone o (.refl once o) first hfirst
        have hwithin := hreach o.index o.log first hfirst
        rw [InReach] at hwithin
        exact ih (n - first.index) (by omega) hnext (hone.next hfirst) rfl
    rw [repeatOutcomes]
    by_cases hmin : count < min
    · obtain ⟨longer, hcourses, houtcomes⟩ :=
        hlonger fun limit hlimit => Nat.le_trans hmin (hbounds limit hlimit)
      rw [show Nat.max min (count + 1) = min from Nat.max_eq_left hmin] at hcourses
      rw [if_pos hmin, houtcomes]
      exact ⟨longer, hcourses, rfl⟩
    · rw [if_neg hmin]
      by_cases hmax : mayRepeat max count
      · obtain ⟨longer, hcourses, houtcomes⟩ := hlonger (mayRepeat_iff.1 hmax)
        rw [show Nat.max min (count + 1) = count + 1 from Nat.max_eq_right (by omega)] at hcourses
        rw [if_pos hmax, houtcomes]
        refine ⟨longer ++ [[]], hcourses.stop (by omega) hcount, ?_⟩
        rw [List.filterMap_append]
        rfl
      · rw [if_neg hmax]
        exact ⟨[[]], (courses_nil hmax).stop (by omega) hcount, rfl⟩

end Courses

/-- The matches of elements with the siblings from a place on, after what was captured before. -/
def matchesFrom (t : Target ν) (elements : List Pattern) (siblings : List (Child ν))
    (o : Outcome ν) : List (Match ν) :=
  ((Pattern.outcomesInTurn t (inNoSlot elements) siblings.toArray o.index o.log).filter fun o =>
    o.index == siblings.length).map fun o => .ofLog o.log

theorem matchesOf_cons (t : Target ν) (p : Pattern) (rest : List Pattern)
    (siblings : List (Child ν)) :
    matchesOf t (p :: rest) siblings =
      (p.outcomes t .root siblings.toArray 0 .empty).flatMap (matchesFrom t rest siblings) := by
  rw [matchesOf, inNoSlot, List.map_cons, Pattern.outcomesInTurn, List.filter_flatMap,
    List.map_flatMap]
  rfl

/-- The matches of a captured repetition and the rest, when the repetition takes the course. -/
def matchesOfCourse (t : Target ν) (name : String) (inner : Pattern) (rest : List Pattern)
    (siblings : List (Child ν)) (course : List Nat) : List (Match ν) :=
  (follow? (inner.outcomes t .root siblings.toArray) course ⟨0, .empty⟩).toList.flatMap fun o =>
    matchesFrom t rest siblings
      ⟨o.index, o.log.addRun name ((between siblings.toArray 0 o.index).map (·.node))⟩

section

variable {t : Target ν} {name : String} {inner : Pattern} {min : Nat} {max : Option Nat}
  {rest : List Pattern} {siblings : List (Child ν)} {course : List Nat}

/-- A course binds as many nodes to the name of the capture as it has times. -/
theorem length_get_of_mem_matchesOfCourse
    (hinner : name ∉ Pattern.boundIn (Pattern.occurrences inner))
    (hrest : name ∉ Pattern.boundIn (Pattern.occurrencesIn rest))
    (hone : TakesOneEach (inner.outcomes t .root siblings.toArray) ⟨0, .empty⟩) {m : Match ν}
    (hm : m ∈ matchesOfCourse t name inner rest siblings course) :
    (m.get name).length = course.length := by
  obtain ⟨o, ho, hm⟩ := List.mem_flatMap.1 hm
  have hcourse := Option.mem_toList.1 ho
  obtain ⟨last, hlast, rfl⟩ := List.mem_map.1 hm
  have hreaches : Reaches (inner.outcomes t .root siblings.toArray) ⟨0, .empty⟩ o :=
    ⟨course, hcourse⟩
  have hbefore : o.log.boundTo name = [] := by
    refine hreaches.induct (motive := fun o => o.log.boundTo name = []) ?_ rfl
    intro o hbound next hnext
    rw [(Pattern.gainsNames t inner _ _ _ _ next hnext).boundTo_eq hinner, hbound]
  have hwithin : InReach siblings.toArray.size 0 o.index := by
    refine hreaches.induct (motive := fun o => InReach siblings.toArray.size 0 o.index) ?_ (.refl _ 0)
    intro o hwithin next hnext
    exact hwithin.trans (Pattern.inReach_outcomes t inner _ _ _ _ next hnext)
  have hlater : name ∉ (inNoSlot rest).flatMap fun s =>
      Pattern.boundIn (Pattern.occurrences s.2) := by
    rw [inNoSlot, List.flatMap_map]
    rwa [Pattern.occurrencesIn, Pattern.boundIn_occurrencesFrom] at hrest
  have hafter := (Pattern.gainsNames_inTurn (fun s _ => Pattern.gainsNames t s.2)
    (List.mem_filter.1 hlast).1).boundTo_eq hlater
  rw [Match.get_ofLog, hafter, Log.boundTo_addRun, if_pos rfl, hbefore, List.nil_append,
    List.length_map, length_between hwithin, hone.index_eq hcourse, Nat.zero_add, Nat.sub_zero]

theorem matchesOf_repetition {courses : List (List Nat)}
    (houtcomes : repeatOutcomes siblings.toArray.size (inner.outcomes t .root siblings.toArray) min
      max 0 0 .empty =
        courses.filterMap (follow? (inner.outcomes t .root siblings.toArray) · ⟨0, .empty⟩)) :
    matchesOf t (.capture name (.repetition inner min max) :: rest) siblings =
      courses.flatMap (matchesOfCourse t name inner rest siblings) := by
  rw [matchesOf_cons, Pattern.outcomes, Pattern.outcomes, houtcomes, List.flatMap_map,
    List.filterMap_eq_flatMap_toList, List.flatMap_assoc]
  rfl

end

/-- **The order of repetitions.** Let a captured repetition be followed by other elements, and let
each time of it take one sibling. The matches come course by course, each course before those that
it is preferred to, and bind as many nodes to the name of the capture as the course has times. If
what is repeated has never more than one outcome, matches that bind more nodes come first. -/
theorem repetitions_in_order_of_preference (t : Target ν) (p : CheckedPattern) {name : String}
    {inner : Pattern} {min : Nat} {max : Option Nat} {rest : List Pattern}
    (helements : p.elements = .capture name (.repetition inner min max) :: rest)
    (hinner : name ∉ Pattern.boundIn (Pattern.occurrences inner))
    (hrest : name ∉ Pattern.boundIn (Pattern.occurrencesIn rest)) (siblings : List (Child ν))
    (hone : TakesOneEach (inner.outcomes t .root siblings.toArray) ⟨0, .empty⟩) :
    let results := (Matcher.start p.elements siblings).results t
    (∃ courses, Courses (inner.outcomes t .root siblings.toArray) min max 0 ⟨0, .empty⟩ courses ∧
      results = courses.flatMap (matchesOfCourse t name inner rest siblings) ∧
      ∀ course ∈ courses, ∀ m ∈ matchesOfCourse t name inner rest siblings course,
        (m.get name).length = course.length) ∧
      (OneWayEach (inner.outcomes t .root siblings.toArray) ⟨0, .empty⟩ →
        results.Pairwise fun m m' => (m'.get name).length ≤ (m.get name).length) := by
  intro results
  have hbounds : ∀ limit ∈ max, min ≤ limit := by
    have helement := p.boundsInOrder (.root, .capture name (.repetition inner min max)) <| by
      rw [helements]
      exact List.mem_cons_self
    cases helement with
    | capture h => cases h with
      | repetition hbounds _ => exact hbounds
  have hcount : ∀ limit ∈ max, 0 ≤ limit := fun limit _ => Nat.zero_le limit
  obtain ⟨courses, hcourses, houtcomes⟩ := exists_courses
    (Pattern.inReach_outcomes t inner .root siblings.toArray) hbounds hcount hone
  have hresults : results = courses.flatMap (matchesOfCourse t name inner rest siblings) := by
    rw [← matchesOf_repetition houtcomes, ← helements]
    exact Matcher.results_start t p.elements siblings
  have hlength : ∀ course, ∀ m ∈ matchesOfCourse t name inner rest siblings course,
      (m.get name).length = course.length :=
    fun course m hm => length_get_of_mem_matchesOfCourse hinner hrest hone hm
  refine ⟨⟨courses, hcourses, hresults, fun course _ => hlength course⟩, fun honeWay => ?_⟩
  rw [hresults]
  refine List.pairwise_flatMap.2 ⟨fun course _ => ?_, ?_⟩
  · refine List.pairwise_of_forall_mem_list fun m hm m' hm' => ?_
    exact Nat.le_of_eq ((hlength course m' hm').trans (hlength course m hm).symm)
  · refine hcourses.inOrder.imp_of_mem ?_
    intro course other _ hother hpreferred m hm m' hm'
    rw [hlength course m hm, hlength other m' hm']
    exact honeWay.length_le hpreferred ((hcourses.mem_iff other).1 hother).1

theorem Pattern.index_of_mem_outcomes_any {t : Target ν} {name : Option String} {slot : Role}
    {siblings : Array (Child ν)} {i : Nat} {log : Log ν} {o : Outcome ν}
    (ho : o ∈ (Pattern.any name).outcomes t slot siblings i log) : o.index = i + 1 := by
  obtain ⟨_, -, rfl⟩ := List.mem_map.1 ho
  rfl

/-- Some nodes under a name, and then any others. -/
def someNodes : CheckedPattern where
  elements := [.capture "some" (.repetition (.any none) 1 none), .repetition (.any none) 0 none]
  captures := ["some"]
  checked := rfl

/-- Of two siblings both are bound first, and then the first of them. -/
theorem someNodes_in_order_of_preference :
    let siblings : List (Child Unit) := [⟨.child, ()⟩, ⟨.child, ()⟩]
    let once := (Pattern.any none).outcomes childless .root siblings.toArray
    let rest : List Pattern := [.repetition (.any none) 0 none]
    let results := (Matcher.start someNodes.elements siblings).results childless
    "some" ∉ Pattern.boundIn (Pattern.occurrences (.any none)) ∧
      "some" ∉ Pattern.boundIn (Pattern.occurrencesIn rest) ∧
      TakesOneEach once ⟨0, .empty⟩ ∧ OneWayEach once ⟨0, .empty⟩ ∧
      (results.map fun m => (m.get "some").length) = [2, 1] ∧
      (∃ courses, Courses once 1 none 0 ⟨0, .empty⟩ courses ∧
        results = courses.flatMap (matchesOfCourse childless "some" (.any none) rest siblings) ∧
        ∀ course ∈ courses,
          ∀ m ∈ matchesOfCourse childless "some" (.any none) rest siblings course,
            (m.get "some").length = course.length) ∧
      results.Pairwise fun m m' => (m'.get "some").length ≤ (m.get "some").length := by
  intro siblings once rest results
  have hinner : "some" ∉ Pattern.boundIn (Pattern.occurrences (.any none)) := by decide
  have hrest : "some" ∉ Pattern.boundIn (Pattern.occurrencesIn rest) := by decide
  have hone : TakesOneEach once ⟨0, .empty⟩ :=
    fun o _ next hnext => Pattern.index_of_mem_outcomes_any hnext
  have honeWay : OneWayEach once ⟨0, .empty⟩ := by
    intro o _
    rw [show once o.index o.log = (fittingAt? siblings.toArray o.index .root).toList.map _ from rfl,
      List.length_map]
    exact Option.length_toList_le
  obtain ⟨hcourses, hpairwise⟩ :=
    repetitions_in_order_of_preference childless someNodes rfl hinner hrest siblings hone
  refine ⟨hinner, hrest, hone, honeWay, ?_, hcourses, hpairwise honeWay⟩
  rw [show results = _ from Matcher.results_start childless someNodes.elements siblings]
  decide +kernel

/-- The same, where each of the nodes is matched in two ways. -/
def someNodesTwice : CheckedPattern where
  elements := [.capture "some" (.repetition (.choice [.any none, .any none]) 1 none),
    .repetition (.any none) 0 none]
  captures := ["some"]
  checked := rfl

/-- A longer course does not always come first: of two siblings the first alone is bound before both
of them are bound where the first is matched in the second way. -/
theorem longer_courses_not_first :
    ¬∀ (p : CheckedPattern) (name : String) (inner : Pattern) (min : Nat) (max : Option Nat)
        (rest : List Pattern) (siblings : List (Child Unit)),
      p.elements = .capture name (.repetition inner min max) :: rest →
      name ∉ Pattern.boundIn (Pattern.occurrences inner) →
      name ∉ Pattern.boundIn (Pattern.occurrencesIn rest) →
      TakesOneEach (inner.outcomes childless .root siblings.toArray) ⟨0, .empty⟩ →
      ((Matcher.start p.elements siblings).results childless).Pairwise fun m m' =>
        (m'.get name).length ≤ (m.get name).length := by
  intro h
  let siblings : List (Child Unit) := [⟨.child, ()⟩, ⟨.child, ()⟩]
  have hone : TakesOneEach ((Pattern.choice [.any none, .any none]).outcomes childless .root
      siblings.toArray) ⟨0, .empty⟩ := by
    intro o _ next hnext
    rw [Pattern.outcomes, Pattern.outcomesOfEach_eq_flatMap] at hnext
    obtain ⟨q, hq, hnext⟩ := List.mem_flatMap.1 hnext
    have hany : q = .any none := by simpa using hq
    subst hany
    exact Pattern.index_of_mem_outcomes_any hnext
  have hpairwise := h someNodesTwice "some" _ 1 none _ siblings rfl (by decide) (by decide) hone
  have hsizes : (((Matcher.start someNodesTwice.elements siblings).results childless).map fun m =>
      (m.get "some").length) = [2, 2, 1, 2, 2, 1] := by
    rw [Matcher.results_start]
    decide +kernel
  rw [← List.pairwise_map (R := fun k k' => k' ≤ k), hsizes] at hpairwise
  exact absurd hpairwise (by decide)

end StructuralSearch
