import StructuralSearch.Proofs.Matching.Run
import StructuralSearch.Proofs.Pattern.Checking

/-!
# Bound names

Which names a match binds depends on the way that was taken: an alternative that was not tried binds
nothing. `Pattern.mandatory` names what a pattern binds whichever way it matches. Every match binds
those names, perhaps to no nodes, and no others than those that checking has collected. Matching
only adds to the log, so both are told from what is added.
-/
namespace StructuralSearch

variable {ν : Type}

/-- The log has become the second one by adding: something for each of the `sure` names, and nothing
for a name that is not among the `possible` ones. -/
def Log.Gains (log : Log ν) (sure possible : List String) (log' : Log ν) : Prop :=
  ∃ added, log'.toList = log.toList ++ added ∧
    (∀ name ∈ sure, ∃ b ∈ added, b.name = name) ∧ ∀ b ∈ added, b.name ∈ possible

namespace Log.Gains

variable {log log' log'' : Log ν} {sure sure' possible possible' : List String}

theorem nothing (log : Log ν) (possible : List String) : log.Gains [] possible log :=
  ⟨[], (List.append_nil _).symm, List.forall_mem_nil _, List.forall_mem_nil _⟩

theorem trans (h : log.Gains sure possible log') (h' : log'.Gains sure' possible log'') :
    log.Gains (sure ++ sure') possible log'' := by
  obtain ⟨added, hlog, hsure, hpossible⟩ := h
  obtain ⟨added', hlog', hsure', hpossible'⟩ := h'
  refine ⟨added ++ added', by rw [hlog', hlog, List.append_assoc], ?_,
    List.forall_mem_append.2 ⟨hpossible, hpossible'⟩⟩
  intro name hname
  rcases List.mem_append.1 hname with hname | hname
  · obtain ⟨b, hb, rfl⟩ := hsure name hname
    exact ⟨b, List.mem_append_left _ hb, rfl⟩
  · obtain ⟨b, hb, rfl⟩ := hsure' name hname
    exact ⟨b, List.mem_append_right _ hb, rfl⟩

theorem weaken (h : log.Gains sure possible log') (hsure : sure' ⊆ sure)
    (hpossible : possible ⊆ possible') : log.Gains sure' possible' log' := by
  obtain ⟨added, hlog, hadded, hwithin⟩ := h
  exact ⟨added, hlog, fun name hname => hadded name (hsure hname),
    fun b hb => hpossible (hwithin b hb)⟩

theorem addRun (log : Log ν) (name : String) (nodes : List ν) :
    log.Gains [name] [name] (log.addRun name nodes) := by
  obtain ⟨b, hb⟩ := Binding.exists_mem_ofRun name nodes
  refine ⟨_, Log.toList_addRun log name nodes, ?_, ?_⟩
  · exact List.forall_mem_singleton.2 ⟨b, hb, Binding.name_of_mem_ofRun hb⟩
  · exact fun b hb => List.mem_singleton.2 (Binding.name_of_mem_ofRun hb)

/-- A name that is not possible is bound to what it was bound to. -/
theorem boundTo_eq (h : log.Gains sure possible log') {name : String} (hname : name ∉ possible) :
    log'.boundTo name = log.boundTo name := by
  obtain ⟨added, hlog, -, hwithin⟩ := h
  have hnone : (added.filterMap fun b => if b.name = name then b.node else none) = [] := by
    rw [List.filterMap_eq_nil_iff]
    intro b hb
    refine if_neg ?_
    rintro rfl
    exact hname (hwithin b hb)
  rw [Log.boundTo, hlog, List.filterMap_append, hnone, List.append_nil]
  rfl

end Log.Gains

namespace Pattern

mutual

/-- The names that a pattern binds whichever way it matches. -/
def mandatory : Pattern → List String
  | .any name => name.toList
  | .capture name inner => name :: mandatory inner
  | .optional _ => []
  | .repetition inner min _ => if min = 0 then [] else mandatory inner
  | .choice [] => []
  | .choice (first :: later) => mandatoryInEach later (mandatory first)
  | .backreference _ => []
  | .literal _ _ slots => mandatoryInSlots slots
  | .adapter _ inner => mandatory inner
termination_by structural p => p

/-- Those of the names that each of the patterns binds whichever way it matches. -/
def mandatoryInEach : List Pattern → List String → List String
  | [], names => names
  | p :: ps, names => mandatoryInEach ps (names.filter (mandatory p).contains)
termination_by structural ps => ps

def mandatoryInSlots : List (Role × Pattern) → List String
  | [] => []
  | (_, p) :: rest => mandatory p ++ mandatoryInSlots rest
termination_by structural slots => slots

end

theorem mem_mandatoryInEach {ps : List Pattern} {names : List String} {name : String} :
    name ∈ mandatoryInEach ps names ↔ name ∈ names ∧ ∀ p ∈ ps, name ∈ mandatory p := by
  induction ps generalizing names with
  | nil => simp [mandatoryInEach]
  | cons p ps ih =>
    rw [mandatoryInEach, ih, List.mem_filter, List.contains_iff_mem, List.forall_mem_cons, and_assoc]

theorem mem_mandatoryInSlots {slots : List (Role × Pattern)} {name : String} :
    name ∈ mandatoryInSlots slots ↔ ∃ s ∈ slots, name ∈ mandatory s.2 := by
  induction slots with
  | nil => simp [mandatoryInSlots]
  | cons s rest ih => rw [mandatoryInSlots, List.mem_append, ih, List.exists_mem_cons_iff]

/-- A choice is sure of what each of its alternatives is sure of. -/
theorem mandatory_choice_subset {ps : List Pattern} {p : Pattern} (hp : p ∈ ps) :
    mandatory (.choice ps) ⊆ mandatory p := by
  intro name hname
  cases ps with
  | nil => cases hp
  | cons first later =>
    obtain ⟨hfirst, hlater⟩ := mem_mandatoryInEach.1 hname
    rcases List.mem_cons.1 hp with rfl | hp
    · exact hfirst
    · exact hlater p hp

/-- Each outcome has gained what the pattern is sure to bind, and no name that it does not bind. -/
def GainsNames (t : Target ν) (p : Pattern) : Prop :=
  ∀ slot siblings i log, ∀ o ∈ outcomes t p slot siblings i log,
    log.Gains p.mandatory (boundIn (occurrences p)) o.log

theorem gainsNames_inTurn {t : Target ν} {slots : List (Role × Pattern)}
    (hslots : ∀ s ∈ slots, s.2.GainsNames t) {siblings : Array (Child ν)} {i : Nat} {log : Log ν}
    {o : Outcome ν} (ho : o ∈ outcomesInTurn t slots siblings i log) :
    log.Gains (mandatoryInSlots slots) (slots.flatMap fun s => boundIn (occurrences s.2)) o.log := by
  induction slots generalizing i log with
  | nil =>
    obtain rfl := List.mem_singleton.1 ho
    exact .nothing log []
  | cons s rest ih =>
    obtain ⟨hs, hrest⟩ := List.forall_mem_cons.1 hslots
    obtain ⟨first, hfirst, ho⟩ := List.mem_flatMap.1 ho
    have hgains := hs s.1 siblings i log first hfirst
    rw [List.flatMap_cons]
    exact (hgains.weaken (List.Subset.refl _) (List.subset_append_left _ _)).trans
      ((ih hrest ho).weaken (List.Subset.refl _) (List.subset_append_right _ _))

/-- As long as a repetition lacks some of its times, there is at least one more. -/
theorem GainsNames.repetition {t : Target ν} {p : Pattern} (hp : p.GainsNames t) {slot : Role}
    {siblings : Array (Child ν)} {min : Nat} {max : Option Nat} {count i : Nat} {log : Log ν}
    {o : Outcome ν}
    (ho : o ∈ repeatOutcomes siblings.size (p.outcomes t slot siblings) min max count i log) :
    log.Gains (if count < min then p.mandatory else []) (boundIn (occurrences p)) o.log := by
  refine repeatOutcomes_induct (motive := fun count _ log o =>
    log.Gains (if count < min then p.mandatory else []) (boundIn (occurrences p)) o.log) ?_ ?_ ?_ ho
  · intro count i log hmin
    rw [if_neg hmin]
    exact .nothing log _
  · intro count i log o ho _ _
    refine (hp slot siblings i log o ho).weaken ?_ (List.Subset.refl _)
    split
    · exact List.Subset.refl _
    · exact List.nil_subset _
  · intro count i log first hfirst o _ _ hrest
    refine ((hp slot siblings i log first hfirst).trans hrest).weaken ?_ (List.Subset.refl _)
    split
    · exact List.subset_append_left _ _
    · exact List.nil_subset _

theorem gainsNames (t : Target ν) (p : Pattern) : p.GainsNames t := by
  induction p using Pattern.induct with
  | any name =>
    intro slot siblings i log o ho
    obtain ⟨child, -, rfl⟩ := List.mem_map.1 ho
    rw [mandatory, boundIn_any]
    cases name with
    | none => exact .nothing log []
    | some name => exact .addRun log name [child.node]
  | capture name p ih =>
    intro slot siblings i log o ho
    obtain ⟨inner, hinner, rfl⟩ := List.mem_map.1 ho
    rw [mandatory, boundIn_capture]
    have hinner := (ih slot siblings i log inner hinner).weaken (List.Subset.refl _)
      (List.subset_append_left _ [name])
    have hown := (Log.Gains.addRun inner.log name ((between siblings i inner.index).map (·.node))).weaken
      (List.Subset.refl _) (List.subset_append_right (boundIn (occurrences p)) _)
    exact (hinner.trans hown).weaken (List.perm_append_singleton _ _).symm.subset (List.Subset.refl _)
  | optional p ih =>
    intro slot siblings i log o ho
    rw [mandatory, boundIn_optional]
    rcases List.mem_append.1 ho with ho | ho
    · exact (ih slot siblings i log o ho).weaken (List.nil_subset _) (List.Subset.refl _)
    · obtain rfl := List.mem_singleton.1 ho
      exact .nothing log _
  | repetition p min max ih =>
    intro slot siblings i log o ho
    rw [mandatory, boundIn_repetition]
    refine (ih.repetition ho).weaken ?_ (List.Subset.refl _)
    split
    · exact List.nil_subset _
    · rw [if_pos (by omega)]
      exact List.Subset.refl _
  | choice ps ih =>
    intro slot siblings i log o ho
    rw [outcomes, outcomesOfEach_eq_flatMap] at ho
    obtain ⟨p, hp, ho⟩ := List.mem_flatMap.1 ho
    rw [boundIn_choice]
    exact (ih p hp slot siblings i log o ho).weaken (mandatory_choice_subset hp)
      fun name hname => List.mem_flatMap.2 ⟨p, hp, hname⟩
  | backreference name =>
    intro slot siblings i log o ho
    obtain ⟨child, -, rfl⟩ := List.mem_map.1 ho
    exact .nothing log []
  | literal kind text slots ih =>
    intro slot siblings i log o ho
    obtain ⟨child, -, ho⟩ := List.mem_flatMap.1 ho
    obtain ⟨inner, hinner, rfl⟩ := List.mem_map.1 ho
    rw [mandatory, boundIn_literal]
    have hgains := gainsNames_inTurn ih (List.mem_filter.1 hinner).1
    exact hgains
  | adapter construct p ih =>
    intro slot siblings i log o ho
    rw [mandatory, boundIn_adapter]
    exact ih slot siblings i log o (List.mem_filter.1 ho).1

/-- All names that the elements bind were collected when they were checked. -/
theorem mem_captures_of_mem_boundIn {p : CheckedPattern} {q : Pattern} (hq : q ∈ p.elements)
    {name : String} (hname : name ∈ boundIn (occurrences q)) : name ∈ p.captures := by
  obtain ⟨-, hcaptures⟩ := (checkSequence_eq_ok_iff 0).1 p.checked
  rw [← hcaptures, mem_foldl_addName, boundIn_occurrencesFrom]
  exact .inr (List.mem_flatMap.2 ⟨q, hq, hname⟩)

end Pattern

theorem mem_names_ofLog {log : Log ν} {name : String} :
    name ∈ (Match.ofLog log).names ↔ ∃ b ∈ log.toList, b.name = name := by
  rw [Match.names, Match.ofLog, List.map_map]
  show name ∈ log.names.map id ↔ _
  rw [List.map_id, Log.mem_names, List.mem_map]

/-- **Bound names lie between the mandatory and the declared ones.** Every match of a checked
pattern binds each name that is mandatory in one of its elements, and binds only names that checking
has collected. -/
theorem matches_bind_mandatory_names (t : Target ν) (p : CheckedPattern)
    (siblings : List (Child ν)) :
    ∀ m ∈ (Matcher.start p.elements siblings).results t,
      (∀ q ∈ p.elements, ∀ name ∈ q.mandatory, m.contains name) ∧
        ∀ name ∈ m.names, name ∈ p.captures := by
  intro m hm
  rw [Matcher.results_start] at hm
  obtain ⟨o, ho, rfl⟩ := List.mem_map.1 hm
  obtain ⟨added, hlog, hsure, hpossible⟩ := Pattern.gainsNames_inTurn
    (fun s _ => Pattern.gainsNames t s.2) (List.mem_filter.1 ho).1
  rw [Log.toList_empty, List.nil_append] at hlog
  constructor
  · intro q hq name hname
    have hslot : name ∈ Pattern.mandatoryInSlots (inNoSlot p.elements) :=
      Pattern.mem_mandatoryInSlots.2 ⟨(.root, q), List.mem_map_of_mem hq, hname⟩
    rw [Match.contains, List.contains_iff_mem, mem_names_ofLog, hlog]
    exact hsure name hslot
  · intro name hname
    rw [mem_names_ofLog, hlog] at hname
    obtain ⟨b, hb, rfl⟩ := hname
    obtain ⟨s, hs, hname⟩ := List.mem_flatMap.1 (hpossible b hb)
    obtain ⟨q, hq, rfl⟩ := List.mem_map.1 hs
    exact Pattern.mem_captures_of_mem_boundIn hq hname

/-- Twice or more an optional node, and the first of two alternatives or the second. -/
def perhapsTwice : CheckedPattern where
  elements := [
    .capture "all" (.repetition (.capture "each" (.optional (.any none))) 2 none),
    .choice [.capture "last" (.any (some "left")), .capture "last" (.optional (.any (some "right")))]]
  captures := ["each", "all", "left", "last", "right"]
  checked := rfl

/-- With no node at all three names are bound, to nothing, and two that are declared are not. -/
theorem perhapsTwice_binds_mandatory_names :
    let m : Match Unit := ⟨[("all", []), ("each", []), ("last", [])]⟩
    m ∈ (Matcher.start perhapsTwice.elements []).results childless ∧
      (∀ q ∈ perhapsTwice.elements, ∀ name ∈ q.mandatory, m.contains name) ∧
      (∀ name ∈ m.names, name ∈ perhapsTwice.captures) ∧
      perhapsTwice.elements.flatMap Pattern.mandatory = ["all", "each", "last"] := by
  intro m
  -- The optional node is left out, and a time that takes nothing is the last one.
  let log : Log Unit := ⟨[⟨"last", none⟩, ⟨"all", none⟩, ⟨"each", none⟩]⟩
  have hnames : log.names = ["all", "each", "last"] :=
    Log.names_eq (by decide) (by decide) (by decide)
  have hm : m ∈ (Matcher.start perhapsTwice.elements []).results childless := by
    rw [Matcher.results_start]
    refine List.mem_map.2 ⟨⟨0, log⟩, by decide +kernel, ?_⟩
    rw [Match.ofLog, hnames]
    rfl
  obtain ⟨hmandatory, hdeclared⟩ := matches_bind_mandatory_names childless perhapsTwice [] m hm
  exact ⟨hm, hmandatory, hdeclared, by decide⟩

end StructuralSearch
