import StructuralSearch.Proofs.Template.Instance

/-!
# Runs in templates

Of the patterns that templates are converted to only runs can stop at more than one sibling, and a
run takes as many siblings as it can before it takes fewer. It leaves a fork at each of them. But
where no list of slots has more than one run, the other slots take one sibling each, so of all these
ways only one can come out at the end of the siblings.
-/
namespace StructuralSearch

variable {ν : Type}

namespace Pattern

/-! ## The patterns of templates -/

/-- One node: any, or the like of an earlier one, in whatever role. -/
inductive Single : Pattern → Prop
  | any (name : Option String) : Single (.any name)
  | backreference (name : String) : Single (.backreference name)
  | adapter (construct : Construct) {p : Pattern} (h : Single p) : Single (.adapter construct p)

/-- What templates are converted to. -/
inductive Converted : Pattern → Prop
  | single {p : Pattern} (h : Single p) : Converted p
  | wildcardRun : Converted (.star (.any none))
  | run (name : String) : Converted (.capture name (.star (.any none)))
  | literal (kind : String) (text : Option String) {slots : List (Role × Pattern)}
      (h : ∀ s ∈ slots, Converted s.2) : Converted (.literal kind text slots)

end Pattern

namespace Template

open Pattern (Single Converted)

theorem single_singlePattern (bound : List String) (name : String) :
    Single (singlePattern bound name) := by
  rw [singlePattern]
  split
  · exact .any none
  · split
    · exact .backreference name
    · exact .any (some name)

theorem converted_metavariablePattern (bound : List String) (name : String)
    (kind : MetavariableKind) (slot : Role) :
    Converted (metavariablePattern bound name kind slot).1 := by
  cases kind with
  | single =>
    rw [metavariablePattern_single]
    dsimp only
    split
    · exact .single (.adapter _ (single_singlePattern bound name))
    · exact .single (single_singlePattern bound name)
  | multiple =>
    rw [metavariablePattern]
    split
    · exact .wildcardRun
    · exact .run name

theorem converted_toPattern :
    (∀ (bound : List String) (n : SourceNode) (slot : Role), Converted (toPattern bound n slot).1) ∧
    (∀ (bound : List String) (cs : List (Child SourceNode)),
      ∀ s ∈ (toSlots bound cs).1, Converted s.2) := by
  apply toPattern.mutual_induct
  · intro bound n slot name kind hfound
    rw [toPattern_of_found hfound]
    exact converted_metavariablePattern bound name kind slot
  · intro bound n slot hliteral slots bound' hslots ih
    rw [toPattern_of_literal hliteral]
    exact .literal n.kind n.ownText? ih
  · intro bound
    rw [toSlots_nil]
    exact List.forall_mem_nil _
  · intro bound c rest p bound' hp slots bound'' hslots ih ihrest
    rw [hp] at ih
    rw [toSlots_cons, hp]
    exact List.forall_mem_cons.2 ⟨ih, ihrest⟩

end Template

namespace Pattern

/-! ## Where they stop -/

section

variable {t : Target ν} {p : Pattern} {slot : Role} {siblings : Array (Child ν)} {i : Nat}
  {log : Log ν}

/-- It takes the next sibling, which fits the slot. -/
theorem Single.exists_fittingAt? (h : Single p) : ∀ o ∈ outcomes t p slot siblings i log,
    ∃ child, fittingAt? siblings i slot = some child ∧ o.index = i + 1 := by
  induction h with
  | any name =>
    intro o ho
    obtain ⟨child, hchild, rfl⟩ := List.mem_map.1 ho
    exact ⟨child, Option.mem_toList.1 hchild, rfl⟩
  | backreference name =>
    intro o ho
    obtain ⟨child, hchild, rfl⟩ := List.mem_map.1 ho
    exact ⟨child, Option.mem_toList.1 (List.mem_filter.1 hchild).1, rfl⟩
  | adapter construct _ ih => exact fun o ho => ih o (List.mem_filter.1 ho).1

theorem Single.index_eq (h : Single p) :
    ∀ o ∈ outcomes t p slot siblings i log, o.index = i + 1 := by
  intro o ho
  obtain ⟨_, -, hindex⟩ := h.exists_fittingAt? o ho
  exact hindex

/-- There is no second way for a single node, so its outcomes are in any order. -/
theorem Single.pairwise_outcomes (h : Single p) (R : Outcome ν → Outcome ν → Prop) :
    (outcomes t p slot siblings i log).Pairwise R := by
  induction h with
  | any name => exact List.pairwise_map.2 Option.pairwise_toList
  | backreference name => exact List.pairwise_map.2 (Option.pairwise_toList.filter _)
  | adapter construct _ ih => exact ih.filter _

theorem index_of_mem_outcomes_literal {kind : String} {text : Option String}
    {slots : List (Role × Pattern)} :
    ∀ o ∈ outcomes t (.literal kind text slots) slot siblings i log, o.index = i + 1 := by
  intro o ho
  obtain ⟨child, -, ho⟩ := List.mem_flatMap.1 ho
  obtain ⟨_, -, rfl⟩ := List.mem_map.1 ho
  rfl

/-- The outcomes of a literal are in order when those of its slots are that leave no child over. -/
theorem pairwise_outcomes_literal {kind : String} {text : Option String}
    {slots : List (Role × Pattern)} {R : Outcome ν → Outcome ν → Prop}
    (h : ∀ children : List (Child ν), ((outcomesInTurn t slots children.toArray 0 log).filter
      fun o => o.index == children.length).Pairwise fun o o' => R ⟨i + 1, o.log⟩ ⟨i + 1, o'.log⟩) :
    (outcomes t (.literal kind text slots) slot siblings i log).Pairwise R :=
  List.pairwise_flatMap.2
    ⟨fun child _ => List.pairwise_map.2 (h (t.children child.node)), Option.pairwise_toList.filter _⟩

/-- A run takes as many siblings as it can before it takes fewer. -/
theorem pairwise_index_star_any :
    (outcomes t (.star (.any none)) slot siblings i log).Pairwise fun o o' => o'.index < o.index := by
  suffices h : ∀ count, (repeatOutcomes siblings.size (outcomes t (.any none) slot siblings) 0 none
      count i log).Pairwise fun o o' => o'.index < o.index from h 0
  intro count
  induction hd : siblings.size - i using Nat.strongRecOn generalizing count i log with
  | ind d ih =>
    have hreach := inReach_outcomes t (.any none) slot siblings
    have hindex : ∀ first ∈ outcomes t (.any none) slot siblings i log, first.index = i + 1 :=
      (Single.any none).index_eq
    have hfurther : ∀ first ∈ outcomes t (.any none) slot siblings i log,
        i < first.index ∧ first.index ≤ siblings.size := by
      intro first hfirst
      have hwithin := hreach i log first hfirst
      rw [InReach] at hwithin
      have hfirst := hindex first hfirst
      omega
    rw [repeatOutcomes, if_neg (Nat.not_lt_zero count),
      if_pos (show mayRepeat none count from rfl)]
    refine List.pairwise_append.2 ⟨List.pairwise_flatMap.2 ⟨fun first hfirst => ?_, ?_⟩,
      List.pairwise_singleton _ _, ?_⟩
    · have hbound := hfurther first hfirst
      rw [if_pos hbound]
      exact ih (siblings.size - first.index) (by omega) (count + 1) rfl
    · exact (Single.any none).pairwise_outcomes _
    · intro o ho stop hstop
      obtain rfl := List.mem_singleton.1 hstop
      obtain ⟨first, hfirst, ho⟩ := List.mem_flatMap.1 ho
      have hbound := hfurther first hfirst
      rw [if_pos hbound] at ho
      exact Nat.lt_of_lt_of_le hbound.1 (inReach_repeatOutcomes hreach ho).1

end

/-! ## One run among the slots -/

/-- The slots of a literal; nothing else has slots. -/
def slots : Pattern → List (Role × Pattern)
  | .literal _ _ slots => slots
  | _ => []

/-- Stands for a run of siblings, captured or not. -/
def isRun : Pattern → Bool
  | .repetition _ _ _ => true
  | .capture _ (.repetition _ _ _) => true
  | _ => false

/-- No literal has more than one run among its slots. -/
def OneRunEach (p : Pattern) : Prop :=
  ∀ o ∈ occurrences p, o.pattern.slots.countP (fun s => s.2.isRun) ≤ 1

instance (p : Pattern) : Decidable (OneRunEach p) :=
  inferInstanceAs (Decidable (∀ o ∈ occurrences p, _))

theorem Converted.index_eq {t : Target ν} {p : Pattern} (h : Converted p) (hrun : p.isRun = false)
    {slot : Role} {siblings : Array (Child ν)} {i : Nat} {log : Log ν} :
    ∀ o ∈ outcomes t p slot siblings i log, o.index = i + 1 := by
  cases h with
  | single h => exact h.index_eq
  | wildcardRun => cases hrun
  | run name => cases hrun
  | literal kind text h => exact index_of_mem_outcomes_literal

/-- Each outcome stops before the one in front of it. -/
def StopsEarlier (t : Target ν) (p : Pattern) : Prop :=
  ∀ slot siblings i log,
    (outcomes t p slot siblings i log).Pairwise fun o o' => o'.index < o.index

section

variable {t : Target ν} {slots : List (Role × Pattern)} {siblings : Array (Child ν)} {i : Nat}
  {log : Log ν}

theorem index_inTurn (hslots : ∀ s ∈ slots, Converted s.2) (hruns : slots.countP (·.2.isRun) = 0) :
    ∀ o ∈ outcomesInTurn t slots siblings i log, o.index = i + slots.length := by
  induction slots generalizing i log with
  | nil =>
    intro o ho
    obtain rfl := List.mem_singleton.1 ho
    rfl
  | cons s rest ih =>
    intro o ho
    obtain ⟨hs, hrest⟩ := List.forall_mem_cons.1 hslots
    obtain ⟨first, hfirst, ho⟩ := List.mem_flatMap.1 ho
    rw [List.countP_cons, Nat.add_eq_zero_iff] at hruns
    have hrun : s.2.isRun = false := by simpa using hruns.2
    have hindex := hs.index_eq hrun first hfirst
    have hlast := ih hrest hruns.1 o ho
    rw [List.length_cons]
    omega

/-- Where one slot at most has a run, the rest cannot make up for the siblings that it does not
take. -/
theorem pairwise_inTurn (hslots : ∀ s ∈ slots, Converted s.2)
    (hstops : ∀ s ∈ slots, s.2.StopsEarlier t) (hruns : slots.countP (·.2.isRun) ≤ 1) :
    (outcomesInTurn t slots siblings i log).Pairwise fun o o' => o'.index < o.index := by
  induction slots generalizing i log with
  | nil => exact List.pairwise_singleton _ _
  | cons s rest ih =>
    obtain ⟨hs, hrest⟩ := List.forall_mem_cons.1 hslots
    obtain ⟨hstop, hstoprest⟩ := List.forall_mem_cons.1 hstops
    rw [List.countP_cons] at hruns
    refine List.pairwise_flatMap.2 ⟨fun first _ => ih hrest hstoprest (by omega), ?_⟩
    refine (hstop s.1 siblings i log).imp_of_mem ?_
    intro first first' hfirst hfirst' hlt o ho o' ho'
    cases hrun : s.2.isRun with
    | true =>
      rw [hrun, if_pos rfl] at hruns
      have hnone : rest.countP (·.2.isRun) = 0 := by omega
      have hindex := index_inTurn hrest hnone o ho
      have hindex' := index_inTurn hrest hnone o' ho'
      omega
    | false =>
      have hindex := hs.index_eq hrun first hfirst
      have hindex' := hs.index_eq hrun first' hfirst'
      omega

/-- Only one way can leave no sibling over. -/
theorem pairwise_false_filter_index {os : List (Outcome ν)} {k : Nat}
    (h : os.Pairwise fun o o' => o'.index < o.index) :
    (os.filter fun o => o.index == k).Pairwise fun _ _ => False := by
  refine (h.filter _).imp_of_mem ?_
  intro o o' ho ho' hlt
  have hindex := beq_iff_eq.1 (List.mem_filter.1 ho).2
  have hindex' := beq_iff_eq.1 (List.mem_filter.1 ho').2
  omega

end

theorem OneRunEach.of_mem_slots {kind : String} {text : Option String} {slots : List (Role × Pattern)}
    (h : OneRunEach (.literal kind text slots)) : ∀ s ∈ slots, OneRunEach s.2 := by
  intro s hs o ho
  obtain ⟨o', ho', hpattern⟩ := exists_mem_occurrencesInSlots 0 hs ho
  rw [← hpattern]
  exact h o' (List.mem_append_left _ ho')

theorem Converted.stopsEarlier (t : Target ν) {p : Pattern} (h : Converted p) (hruns : OneRunEach p) :
    p.StopsEarlier t := by
  induction h with
  | single h => exact fun _ _ _ _ => h.pairwise_outcomes _
  | wildcardRun => exact fun _ _ _ _ => pairwise_index_star_any
  | run name => exact fun _ _ _ _ => List.pairwise_map.2 pairwise_index_star_any
  | literal kind text hslots ih =>
    intro slot siblings i log
    have hcount := hruns _ (List.mem_append_right _ (List.mem_singleton_self _))
    have hstops := fun s hs => ih s hs (hruns.of_mem_slots s hs)
    refine pairwise_outcomes_literal fun children => ?_
    exact (pairwise_false_filter_index (pairwise_inTurn hslots hstops hcount)).imp False.elim

end Pattern

/-- One pattern and one node: the ways that take the node. -/
theorem matchesOf_one (t : Target ν) (p : Pattern) (n : ν) :
    matchesOf t [p] [⟨.root, n⟩] =
      ((p.outcomes t .root #[⟨.root, n⟩] 0 .empty).filter fun o => o.index == 1).map
        fun o => .ofLog o.log := by
  show (((p.outcomes t .root #[⟨.root, n⟩] 0 .empty).flatMap fun o => [o]).filter _).map _ = _
  rw [List.flatMap_singleton']
  rfl

theorem eq_toList_head?_of_pairwise_false {α : Type} {l : List α} (h : l.Pairwise fun _ _ => False) :
    l = l.head?.toList := by
  cases l with
  | nil => rfl
  | cons a rest =>
    rw [List.eq_nil_iff_forall_not_mem.2 (List.pairwise_cons.1 h).1]
    rfl

namespace Template

open SourceNode (target)

/-- **One run each, one match.** Where no node of a template has more than one run among its
children, the template matches a node in one way at most: the preferred match is the only one, and
whoever pulls after it gets nothing. -/
theorem one_match_of_oneRunEach {root : SourceNode} {p : CheckedPattern}
    (hp : CheckedPattern.ofPattern (toPattern [] root .root).1 = .ok p)
    (hruns : (toPattern [] root .root).1.OneRunEach) (t : Target ν) (n : ν) :
    (p.onNode n).results t = (p.preferred? t n).toList ∧
      ∀ k, (p.onNode n).pull t (k + 1) = none := by
  have hmatches : matchesOf t p.elements [⟨.root, n⟩] = (p.preferred? t n).toList := by
    rw [CheckedPattern.preferred?_eq_head?]
    refine eq_toList_head?_of_pairwise_false ?_
    rw [CheckedPattern.ofPattern_eq_ok_iff.1 hp, matchesOf_one, List.pairwise_map]
    exact Pattern.pairwise_false_filter_index
      ((converted_toPattern.1 [] root .root).stopsEarlier t hruns _ _ _ _)
  constructor
  · exact (Matcher.results_start t p.elements [⟨.root, n⟩]).trans hmatches
  · intro k
    show (Matcher.start p.elements [⟨.root, n⟩]).pull t (k + 1) = none
    rw [Matcher.pull_eq_getElem? t (Matcher.logsNested_start p.elements [⟨.root, n⟩]),
      Matcher.ahead_start, hmatches]
    refine List.getElem?_eq_none ?_
    have hlength : (p.preferred? t n).toList.length ≤ 1 := Option.length_toList_le
    omega

/-- In a function with a parameter and a statement both runs have one way. -/
theorem functionPattern_matches_once :
    (toPattern [] functionTemplate .root).1.OneRunEach ∧
      ∃ m, (functionPattern.onNode plainFunction).results target = [m] ∧
        (∀ k, (functionPattern.onNode plainFunction).pull target (k + 1) = none) ∧
        (m.get "ARGS").length = 1 ∧ (m.get "BODY").length = 1 := by
  have hpattern : (toPattern [] functionTemplate .root).1 = functionPattern.elements.head! :=
    List.singleton_inj.1 toPattern_functionTemplate
  have hruns : (toPattern [] functionTemplate .root).1.OneRunEach := by
    rw [hpattern]
    decide +kernel
  have hlengths : ((functionPattern.onNode plainFunction).results target).map (fun m =>
      ((m.get "ARGS").length, (m.get "BODY").length)) = [(1, 1)] := by
    rw [map_get_results functionPattern plainFunction fun bound =>
      ((bound "ARGS").length, (bound "BODY").length)]
    decide +kernel
  obtain ⟨hresults, hpulls⟩ :=
    one_match_of_oneRunEach ofPattern_functionTemplate hruns target plainFunction
  rw [hresults] at hlengths ⊢
  cases hpreferred : functionPattern.preferred? target plainFunction with
  | none =>
    rw [hpreferred] at hlengths
    cases hlengths
  | some m =>
    rw [hpreferred] at hlengths
    obtain ⟨hargs, hbody⟩ := Prod.mk.inj (List.singleton_inj.1 hlengths)
    exact ⟨hruns, m, rfl, hpulls, hargs, hbody⟩

end Template
end StructuralSearch
