import StructuralSearch.Proofs.Except
import StructuralSearch.Proofs.Matching.Captures
import StructuralSearch.Proofs.Matching.Refinement

/-!
# Counted repetition

`Derives` says declaratively what a pattern matches: a repetition is any number of times within its
bounds, and a time that matches nothing is one like any other. The matcher ends a repetition at such
a time, whatever number it still needs. The two agree on which nodes are captured, because a pattern
that can match nothing can do so anywhere, and then binds no node that a later comparison could see.
They do not agree on how often a name is bound to nothing.
-/
namespace StructuralSearch

variable {ν : Type}

mutual

/-- A pattern in a slot leads from one place among siblings, with the captures made so far, to
another. -/
inductive Derives (t : Target ν) :
    Pattern → Role → Array (Child ν) → Outcome ν → Outcome ν → Prop where
  | any {name : Option String} {slot : Role} {siblings : Array (Child ν)} {o : Outcome ν}
      {child : Child ν} (hfits : fittingAt? siblings o.index slot = some child) :
      Derives t (.any name) slot siblings o
        ⟨o.index + 1, name.elim o.log fun name => o.log.add ⟨name, some child.node⟩⟩
  | capture {name : String} {inner : Pattern} {slot : Role} {siblings : Array (Child ν)}
      {o o' : Outcome ν} (h : Derives t inner slot siblings o o') :
      Derives t (.capture name inner) slot siblings o
        ⟨o'.index, o'.log.addRun name ((between siblings o.index o'.index).map (·.node))⟩
  | optional {inner : Pattern} {slot : Role} {siblings : Array (Child ν)} {o o' : Outcome ν}
      (h : Derives t inner slot siblings o o') : Derives t (.optional inner) slot siblings o o'
  | nothing {inner : Pattern} {slot : Role} {siblings : Array (Child ν)} {o : Outcome ν} :
      Derives t (.optional inner) slot siblings o o
  | repetition {inner : Pattern} {min : Nat} {max : Option Nat} {slot : Role}
      {siblings : Array (Child ν)} {o o' : Outcome ν} {k : Nat} (hmin : min ≤ k)
      (hmax : ∀ limit, max = some limit → k ≤ limit)
      (h : DerivesInTurn t (List.replicate k (slot, inner)) siblings o o') :
      Derives t (.repetition inner min max) slot siblings o o'
  | choice {alternatives : List Pattern} {p : Pattern} {slot : Role} {siblings : Array (Child ν)}
      {o o' : Outcome ν} (hp : p ∈ alternatives) (h : Derives t p slot siblings o o') :
      Derives t (.choice alternatives) slot siblings o o'
  | backreference {name : String} {slot : Role} {siblings : Array (Child ν)} {o : Outcome ν}
      {child : Child ν} (hfits : fittingAt? siblings o.index slot = some child)
      (hbound : o.log.boundTo name ≠ [])
      (hsame : ∀ n ∈ o.log.boundTo name, t.sameContent n child.node) :
      Derives t (.backreference name) slot siblings o ⟨o.index + 1, o.log⟩
  | literal {kind : String} {text : Option String} {slots : List (Role × Pattern)} {slot : Role}
      {siblings : Array (Child ν)} {o : Outcome ν} {child : Child ν} {log : Log ν}
      (hfits : fittingAt? siblings o.index slot = some child) (hkind : t.kind child.node = kind)
      (htext : ∀ s, text = some s → t.hasText child.node s)
      (h : DerivesInTurn t slots (t.children child.node).toArray ⟨0, o.log⟩
        ⟨(t.children child.node).length, log⟩) :
      Derives t (.literal kind text slots) slot siblings o ⟨o.index + 1, log⟩
  | adapter {construct : Construct} {inner : Pattern} {slot : Role} {siblings : Array (Child ν)}
      {o o' : Outcome ν} (h : Derives t inner slot siblings o o')
      (haccepts : ∀ child ∈ between siblings o.index o'.index, child.role.accepts construct) :
      Derives t (.adapter construct inner) slot siblings o o'

/-- Patterns in their slots lead from one place to another one by one. -/
inductive DerivesInTurn (t : Target ν) :
    List (Role × Pattern) → Array (Child ν) → Outcome ν → Outcome ν → Prop where
  | nil {siblings : Array (Child ν)} {o : Outcome ν} : DerivesInTurn t [] siblings o o
  | cons {slot : Role} {p : Pattern} {rest : List (Role × Pattern)} {siblings : Array (Child ν)}
      {o first o' : Outcome ν} (h : Derives t p slot siblings o first)
      (hrest : DerivesInTurn t rest siblings first o') :
      DerivesInTurn t ((slot, p) :: rest) siblings o o'

end

/-- The elements match all of the siblings and capture what the log holds. -/
def DerivesAll (t : Target ν) (elements : List Pattern) (siblings : List (Child ν))
    (log : Log ν) : Prop :=
  DerivesInTurn t (inNoSlot elements) siblings.toArray ⟨0, .empty⟩ ⟨siblings.length, log⟩

/-- All repetitions in the pattern have their bounds in order. -/
inductive Pattern.BoundsInOrder : Pattern → Prop where
  | any {name : Option String} : BoundsInOrder (.any name)
  | capture {name : String} {p : Pattern} (h : BoundsInOrder p) : BoundsInOrder (.capture name p)
  | optional {p : Pattern} (h : BoundsInOrder p) : BoundsInOrder (.optional p)
  | repetition {p : Pattern} {min : Nat} {max : Option Nat}
      (hbounds : ∀ limit, max = some limit → min ≤ limit) (h : BoundsInOrder p) :
      BoundsInOrder (.repetition p min max)
  | choice {ps : List Pattern} (h : ∀ p ∈ ps, BoundsInOrder p) : BoundsInOrder (.choice ps)
  | backreference {name : String} : BoundsInOrder (.backreference name)
  | literal {kind : String} {text : Option String} {slots : List (Role × Pattern)}
      (h : ∀ s ∈ slots, BoundsInOrder s.2) : BoundsInOrder (.literal kind text slots)
  | adapter {construct : Construct} {p : Pattern} (h : BoundsInOrder p) :
      BoundsInOrder (.adapter construct p)

namespace Pattern

open Except (bind_eq_ok_iff)

theorem min_le_of_checkBounds {min : Nat} {max : Option Nat} (h : checkBounds min max = .ok ()) :
    ∀ limit, max = some limit → min ≤ limit := by
  rintro limit rfl
  rw [checkBounds] at h
  split at h
  · cases h
  · omega

theorem checked_of_checkAlternatives {slot : Option Role} {before union names : List String}
    {ps : List Pattern} (h : checkAlternatives slot before ps union = .ok names) :
    ∀ p ∈ ps, ∃ after, check slot p before = .ok after := by
  induction ps generalizing union with
  | nil => exact List.forall_mem_nil _
  | cons p ps ih =>
    obtain ⟨after, hp, hrest⟩ := bind_eq_ok_iff.1 h
    exact List.forall_mem_cons.2 ⟨⟨after, hp⟩, ih hrest⟩

theorem checked_of_checkSlots {slots : List (Role × Pattern)} {known names : List String}
    (h : checkSlots slots known = .ok names) :
    ∀ s ∈ slots, ∃ before after, check (some s.1) s.2 before = .ok after := by
  induction slots generalizing known with
  | nil => exact List.forall_mem_nil _
  | cons s slots ih =>
    obtain ⟨after, hs, hrest⟩ := bind_eq_ok_iff.1 h
    exact List.forall_mem_cons.2 ⟨⟨known, after, hs⟩, ih hrest⟩

theorem checked_of_checkSequence {elements : List Pattern} {known names : List String}
    (h : checkSequence elements known = .ok names) :
    ∀ p ∈ elements, ∃ before after, check none p before = .ok after := by
  induction elements generalizing known with
  | nil => exact List.forall_mem_nil _
  | cons p elements ih =>
    obtain ⟨after, hp, hrest⟩ := bind_eq_ok_iff.1 h
    exact List.forall_mem_cons.2 ⟨⟨known, after, hp⟩, ih hrest⟩

/-- Checking finds every repetition with its bounds reversed. -/
theorem boundsInOrder_of_check (p : Pattern) (slot : Option Role) (known names : List String)
    (h : check slot p known = .ok names) : p.BoundsInOrder := by
  induction p using Pattern.induct generalizing slot known names with
  | any name => exact .any
  | capture name p ih =>
    obtain ⟨inner, hinner, -⟩ := bind_eq_ok_iff.1 h
    exact .capture (ih slot known inner hinner)
  | optional p ih => exact .optional (ih slot known names h)
  | repetition p min max ih =>
    obtain ⟨_, hbounds, hinner⟩ := bind_eq_ok_iff.1 h
    exact .repetition (min_le_of_checkBounds hbounds) (ih slot known names hinner)
  | choice ps ih =>
    rw [check] at h
    split at h
    · cases h
    · apply BoundsInOrder.choice
      intro p hp
      obtain ⟨after, hchecked⟩ := checked_of_checkAlternatives h p hp
      exact ih p hp slot known after hchecked
  | backreference name => exact .backreference
  | literal kind text slots ih =>
    apply BoundsInOrder.literal
    intro s hs
    obtain ⟨before, after, hchecked⟩ := checked_of_checkSlots h s hs
    exact ih s hs (some s.1) before after hchecked
  | adapter construct p ih =>
    obtain ⟨_, _, hinner⟩ := bind_eq_ok_iff.1 h
    exact .adapter (ih slot known names hinner)

end Pattern

theorem CheckedPattern.boundsInOrder (p : CheckedPattern) :
    ∀ s ∈ inNoSlot p.elements, s.2.BoundsInOrder := by
  intro s hs
  obtain ⟨q, hq, rfl⟩ := List.mem_map.1 hs
  obtain ⟨before, after, hchecked⟩ := Pattern.checked_of_checkSequence p.checked q hq
  exact q.boundsInOrder_of_check none before after hchecked

namespace Pattern

mutual

/-- The pattern can match nothing. -/
def nullable : Pattern → Bool
  | .any _ => false
  | .capture _ inner => nullable inner
  | .optional _ => true
  | .repetition inner min _ => min == 0 || nullable inner
  | .choice alternatives => nullableAny alternatives
  | .backreference _ => false
  | .literal _ _ _ => false
  | .adapter _ inner => nullable inner
termination_by structural p => p

def nullableAny : List Pattern → Bool
  | [] => false
  | p :: ps => nullable p || nullableAny ps
termination_by structural ps => ps

end

theorem nullableAny_iff {ps : List Pattern} : nullableAny ps ↔ ∃ p ∈ ps, nullable p := by
  induction ps with
  | nil => simp [nullableAny]
  | cons p ps ih => simp only [nullableAny, Bool.or_eq_true, ih, List.mem_cons, exists_eq_or_imp]

end Pattern

/-- Patterns in turn stop where they began or further on, when each of them does. -/
theorem DerivesInTurn.inReach_of_forall {t : Target ν} {slots : List (Role × Pattern)}
    {siblings : Array (Child ν)} {o o' : Outcome ν}
    (hslots : ∀ s ∈ slots, ∀ {o o' : Outcome ν}, Derives t s.2 s.1 siblings o o' →
      InReach siblings.size o.index o'.index)
    (h : DerivesInTurn t slots siblings o o') : InReach siblings.size o.index o'.index := by
  induction slots generalizing o with
  | nil =>
    cases h
    exact .refl siblings.size _
  | cons s slots ih =>
    cases h with
    | cons h hrest =>
      obtain ⟨hs, hslots⟩ := List.forall_mem_cons.1 hslots
      exact (hs h).trans (ih hslots hrest)

theorem Derives.inReach {t : Target ν} {p : Pattern} {slot : Role} {siblings : Array (Child ν)}
    {o o' : Outcome ν} (h : Derives t p slot siblings o o') :
    InReach siblings.size o.index o'.index := by
  induction p using Pattern.induct generalizing slot siblings o o' with
  | any name =>
    cases h with
    | any hfits => exact .succ (lt_size_of_fittingAt? hfits)
  | capture name p ih =>
    cases h with
    | capture h =>
      have hinner := ih h
      exact hinner
  | optional p ih =>
    cases h with
    | optional h => exact ih h
    | nothing => exact .refl siblings.size o.index
  | repetition p min max ih =>
    cases h with
    | repetition hmin hmax h =>
      refine h.inReach_of_forall ?_
      intro s hs
      obtain ⟨-, rfl⟩ := List.mem_replicate.1 hs
      exact ih
  | choice ps ih =>
    cases h with
    | choice hp h => exact ih _ hp h
  | backreference name =>
    cases h with
    | backreference hfits => exact .succ (lt_size_of_fittingAt? hfits)
  | literal kind text slots ih =>
    cases h with
    | literal hfits => exact .succ (lt_size_of_fittingAt? hfits)
  | adapter construct p ih =>
    cases h with
    | adapter h => exact ih h

theorem DerivesInTurn.inReach {t : Target ν} {slots : List (Role × Pattern)}
    {siblings : Array (Child ν)} {o o' : Outcome ν} (h : DerivesInTurn t slots siblings o o') :
    InReach siblings.size o.index o'.index :=
  h.inReach_of_forall fun _ _ => Derives.inReach

/-- Times that match nothing together match nothing each. -/
theorem DerivesInTurn.nullable_of_replicate {t : Target ν} {p : Pattern} {slot : Role}
    {siblings : Array (Child ν)} {k : Nat} {o o' : Outcome ν}
    (hp : ∀ {o o' : Outcome ν}, Derives t p slot siblings o o' → o'.index = o.index →
      p.nullable ∧ o'.log.boundTo = o.log.boundTo)
    (h : DerivesInTurn t (List.replicate k (slot, p)) siblings o o') (hstays : o'.index = o.index) :
    (k = 0 ∨ p.nullable) ∧ o'.log.boundTo = o.log.boundTo := by
  induction k generalizing o with
  | zero =>
    cases h
    exact ⟨.inl rfl, rfl⟩
  | succ k ih =>
    cases h with
    | cons hfirst hrest =>
      have hreach := hfirst.inReach
      have hreach' := hrest.inReach
      unfold InReach at hreach hreach'
      obtain ⟨hnull, hlog⟩ := hp hfirst (by omega)
      obtain ⟨-, hlog'⟩ := ih hrest (by omega)
      exact ⟨.inr hnull, hlog'.trans hlog⟩

/-- A pattern that matches nothing can do so by its form, and binds no node. -/
theorem Derives.nullable {t : Target ν} {p : Pattern} {slot : Role} {siblings : Array (Child ν)}
    {o o' : Outcome ν} (h : Derives t p slot siblings o o') (hstays : o'.index = o.index) :
    p.nullable ∧ o'.log.boundTo = o.log.boundTo := by
  induction p using Pattern.induct generalizing slot siblings o o' with
  | any name =>
    cases h
    exact absurd hstays (Nat.succ_ne_self o.index)
  | capture name p ih =>
    cases h with
    | @capture _ _ _ _ _ inner h =>
      obtain ⟨hnull, hlog⟩ := ih h hstays
      refine ⟨hnull, ?_⟩
      funext other
      have hempty : between siblings o.index inner.index = [] := by
        rw [show inner.index = o.index from hstays, between_self]
      rw [Log.boundTo_addRun, hempty, hlog, List.map_nil, ite_self, List.append_nil]
  | optional p ih =>
    cases h with
    | optional h => exact ⟨rfl, (ih h hstays).2⟩
    | nothing => exact ⟨rfl, rfl⟩
  | repetition p min max ih =>
    cases h with
    | repetition hmin hmax h =>
      obtain ⟨hnull, hlog⟩ := h.nullable_of_replicate ih hstays
      refine ⟨?_, hlog⟩
      rw [Pattern.nullable, Bool.or_eq_true, beq_iff_eq]
      exact hnull.imp (fun hk => by omega) id
  | choice ps ih =>
    cases h with
    | choice hp h =>
      obtain ⟨hnull, hlog⟩ := ih _ hp h hstays
      exact ⟨Pattern.nullableAny_iff.2 ⟨_, hp, hnull⟩, hlog⟩
  | backreference name =>
    cases h
    exact absurd hstays (Nat.succ_ne_self o.index)
  | literal kind text slots ih =>
    cases h
    exact absurd hstays (Nat.succ_ne_self o.index)
  | adapter construct p ih =>
    cases h with
    | adapter h => exact ih h hstays

/-- A pattern that can match nothing by its form has an outcome that does, wherever it stands and
whatever has been captured. -/
theorem Pattern.exists_outcome_of_nullable (t : Target ν) {p : Pattern} (hnull : p.nullable)
    (slot : Role) (siblings : Array (Child ν)) (i : Nat) (log : Log ν) :
    ∃ log', ⟨i, log'⟩ ∈ p.outcomes t slot siblings i log ∧ log'.boundTo = log.boundTo := by
  induction p using Pattern.induct generalizing slot siblings i log with
  | any name => cases hnull
  | capture name p ih =>
    obtain ⟨log', hmem, hlog⟩ := ih hnull slot siblings i log
    refine ⟨_, List.mem_map_of_mem hmem, ?_⟩
    funext other
    rw [Log.boundTo_addRun, between_self, hlog, List.map_nil, ite_self, List.append_nil]
  | optional p ih => exact ⟨log, List.mem_append_right _ (List.mem_singleton.2 rfl), rfl⟩
  | repetition p min max ih =>
    rw [Pattern.nullable, Bool.or_eq_true, beq_iff_eq] at hnull
    by_cases hmin : min = 0
    · exact ⟨log, mem_repeatOutcomes.2 (.inl ⟨by omega, rfl⟩), rfl⟩
    · obtain ⟨log', hmem, hlog⟩ := ih (hnull.resolve_left hmin) slot siblings i log
      refine ⟨log', mem_repeatOutcomes.2 (.inr ⟨.inl (by omega), _, hmem, ?_⟩), hlog⟩
      rw [if_neg (fun hlt => Nat.lt_irrefl i hlt.1)]
      exact List.mem_singleton.2 rfl
  | choice ps ih =>
    obtain ⟨p, hp, hnull⟩ := Pattern.nullableAny_iff.1 hnull
    obtain ⟨log', hmem, hlog⟩ := ih p hp hnull slot siblings i log
    refine ⟨log', ?_, hlog⟩
    rw [Pattern.outcomes, Pattern.outcomesOfEach_eq_flatMap]
    exact List.mem_flatMap.2 ⟨p, hp, hmem⟩
  | backreference name => cases hnull
  | literal kind text slots ih => cases hnull
  | adapter construct p ih =>
    obtain ⟨log', hmem, hlog⟩ := ih hnull slot siblings i log
    refine ⟨log', List.mem_filter.2 ⟨hmem, ?_⟩, hlog⟩
    rw [between_self]
    rfl

theorem mayRepeat_some {limit count : Nat} : mayRepeat (some limit) count ↔ count < limit := by
  rw [mayRepeat, Option.all_some, decide_eq_true_eq]

theorem mayRepeat_iff {max : Option Nat} {count : Nat} :
    mayRepeat max count ↔ ∀ limit ∈ max, count < limit := by
  cases max with
  | none => simp [mayRepeat]
  | some limit => simp [mayRepeat_some]

namespace Pattern

/-- Every outcome of the pattern is derived, from whatever log that binds the same nodes. -/
def OutcomesDerived (t : Target ν) (p : Pattern) : Prop :=
  ∀ (slot : Role) (siblings : Array (Child ν)) (i : Nat) (log : Log ν),
    ∀ o ∈ p.outcomes t slot siblings i log, ∀ log₁ : Log ν, log₁.boundTo = log.boundTo →
      ∃ log', Derives t p slot siblings ⟨i, log₁⟩ ⟨o.index, log'⟩ ∧ log'.boundTo = o.log.boundTo

/-- Every derivation of the pattern is an outcome, after whatever log that binds the same nodes. -/
def DerivationsFound (t : Target ν) (p : Pattern) : Prop :=
  ∀ (slot : Role) (siblings : Array (Child ν)) (o o' : Outcome ν), Derives t p slot siblings o o' →
    ∀ log : Log ν, log.boundTo = o.log.boundTo →
      ∃ log', ⟨o'.index, log'⟩ ∈ p.outcomes t slot siblings o.index log ∧
        log'.boundTo = o'.log.boundTo

theorem OutcomesDerived.inTurn {t : Target ν} {slots : List (Role × Pattern)}
    (hslots : ∀ s ∈ slots, s.2.OutcomesDerived t) {siblings : Array (Child ν)} {i : Nat}
    {log : Log ν} {o : Outcome ν} (ho : o ∈ outcomesInTurn t slots siblings i log) {log₁ : Log ν}
    (hlog : log₁.boundTo = log.boundTo) :
    ∃ log', DerivesInTurn t slots siblings ⟨i, log₁⟩ ⟨o.index, log'⟩ ∧
      log'.boundTo = o.log.boundTo := by
  induction slots generalizing i log log₁ with
  | nil =>
    obtain rfl := List.mem_singleton.1 ho
    exact ⟨log₁, .nil, hlog⟩
  | cons s slots ih =>
    obtain ⟨hs, hslots⟩ := List.forall_mem_cons.1 hslots
    obtain ⟨first, hfirst, ho⟩ := List.mem_flatMap.1 ho
    obtain ⟨log₂, hderives, hlog₂⟩ := hs s.1 siblings i log first hfirst log₁ hlog
    obtain ⟨log', hrest, hlog'⟩ := ih hslots ho hlog₂
    exact ⟨log', .cons hderives hrest, hlog'⟩

/-- A pattern that can match nothing does so any number of times. -/
theorem OutcomesDerived.padding {t : Target ν} {p : Pattern} (hp : p.OutcomesDerived t)
    (hnull : p.nullable) (slot : Role) (siblings : Array (Child ν)) (i k : Nat) (log : Log ν) :
    ∃ log', DerivesInTurn t (List.replicate k (slot, p)) siblings ⟨i, log⟩ ⟨i, log'⟩ ∧
      log'.boundTo = log.boundTo := by
  induction k generalizing log with
  | zero => exact ⟨log, .nil, rfl⟩
  | succ k ih =>
    obtain ⟨log₁, hmem, hlog₁⟩ := exists_outcome_of_nullable t hnull slot siblings i log
    obtain ⟨log₂, hfirst, hlog₂⟩ := hp slot siblings i log _ hmem log rfl
    obtain ⟨log', hrest, hlog'⟩ := ih log₂
    exact ⟨log', .cons hfirst hrest, hlog'.trans (hlog₂.trans hlog₁)⟩

/-- The times that a repetition still lacks when it ends early are made up for by repeating the last
one, which matched nothing. -/
theorem OutcomesDerived.times {t : Target ν} {p : Pattern} (hp : p.OutcomesDerived t) {min : Nat}
    {max : Option Nat} (hbounds : ∀ limit, max = some limit → min ≤ limit) {slot : Role}
    {siblings : Array (Child ν)} {count i : Nat} {log : Log ν} {o : Outcome ν}
    (ho : o ∈ repeatOutcomes siblings.size (p.outcomes t slot siblings) min max count i log)
    (hcount : ∀ limit, max = some limit → count ≤ limit) {log₁ : Log ν}
    (hlog : log₁.boundTo = log.boundTo) :
    ∃ k log', min ≤ count + k ∧ (∀ limit, max = some limit → count + k ≤ limit) ∧
      DerivesInTurn t (List.replicate k (slot, p)) siblings ⟨i, log₁⟩ ⟨o.index, log'⟩ ∧
      log'.boundTo = o.log.boundTo := by
  refine repeatOutcomes_induct (motive := fun count i log o =>
    (∀ limit, max = some limit → count ≤ limit) → ∀ log₁ : Log ν, log₁.boundTo = log.boundTo →
      ∃ k log', min ≤ count + k ∧ (∀ limit, max = some limit → count + k ≤ limit) ∧
        DerivesInTurn t (List.replicate k (slot, p)) siblings ⟨i, log₁⟩ ⟨o.index, log'⟩ ∧
        log'.boundTo = o.log.boundTo) ?_ ?_ ?_ ho hcount log₁ hlog
  · intro count i log hmin hcount log₁ hlog
    exact ⟨0, log₁, Nat.le_of_not_lt hmin, hcount, .nil, hlog⟩
  · intro count i log o ho hgoes hlast hcount log₁ hlog
    have hstays : o.index = i :=
      (p.inReach_outcomes t slot siblings i log o ho).eq_of_not_lt hlast
    obtain ⟨log₂, hfirst, hlog₂⟩ := hp slot siblings i log o ho log₁ hlog
    obtain ⟨hnull, hlog₁⟩ := hfirst.nullable hstays
    obtain ⟨log', htimes, hlog'⟩ := hp.padding hnull slot siblings i (min - count) log₁
    refine ⟨min - count, log', by omega, ?_, ?_, hlog'.trans (hlog₁.symm.trans hlog₂)⟩
    · intro limit hlimit
      have := hbounds limit hlimit
      have := hcount limit hlimit
      omega
    · rw [hstays]
      exact htimes
  · intro count i log first hfirst o hgoes hfurther ih hcount log₁ hlog
    obtain ⟨log₂, hderives, hlog₂⟩ := hp slot siblings i log first hfirst log₁ hlog
    have hcount' : ∀ limit, max = some limit → count + 1 ≤ limit := by
      rintro limit rfl
      have hle := hbounds limit rfl
      rcases hgoes with hmin | hmax
      · omega
      · exact mayRepeat_some.1 hmax
    obtain ⟨k, log', hmin, hmax, hrest, hlog'⟩ := ih hcount' log₂ hlog₂
    refine ⟨k + 1, log', by omega, ?_, .cons hderives hrest, hlog'⟩
    intro limit hlimit
    have := hmax limit hlimit
    omega

/-- The matcher invents nothing. -/
theorem outcomesDerived (t : Target ν) (p : Pattern) (hb : p.BoundsInOrder) :
    p.OutcomesDerived t := by
  induction p using Pattern.induct with
  | any name =>
    intro slot siblings i log o ho log₁ hlog
    obtain ⟨child, hchild, rfl⟩ := List.mem_map.1 ho
    refine ⟨_, .any (Option.mem_toList.1 hchild), ?_⟩
    cases name with
    | none => exact hlog
    | some name =>
      funext other
      simp only [Option.elim_some, Log.boundTo_add, hlog]
  | capture name p ih =>
    intro slot siblings i log o ho log₁ hlog
    cases hb with
    | capture hb =>
      obtain ⟨inner, hinner, rfl⟩ := List.mem_map.1 ho
      obtain ⟨log', hderives, hlog'⟩ := ih hb slot siblings i log inner hinner log₁ hlog
      refine ⟨log'.addRun name ((between siblings i inner.index).map (·.node)),
        .capture hderives, ?_⟩
      funext other
      rw [Log.boundTo_addRun, Log.boundTo_addRun, hlog']
  | optional p ih =>
    intro slot siblings i log o ho log₁ hlog
    cases hb with
    | optional hb =>
      rcases List.mem_append.1 ho with ho | ho
      · obtain ⟨log', hderives, hlog'⟩ := ih hb slot siblings i log o ho log₁ hlog
        exact ⟨log', .optional hderives, hlog'⟩
      · obtain rfl := List.mem_singleton.1 ho
        exact ⟨log₁, .nothing, hlog⟩
  | repetition p min max ih =>
    intro slot siblings i log o ho log₁ hlog
    cases hb with
    | repetition hbounds hb =>
      obtain ⟨k, log', hmin, hmax, htimes, hlog'⟩ :=
        (ih hb).times hbounds ho (fun _ _ => Nat.zero_le _) hlog
      rw [Nat.zero_add] at hmin
      refine ⟨log', .repetition hmin ?_ htimes, hlog'⟩
      intro limit hlimit
      have := hmax limit hlimit
      omega
  | choice ps ih =>
    intro slot siblings i log o ho log₁ hlog
    cases hb with
    | choice hb =>
      rw [outcomes, outcomesOfEach_eq_flatMap] at ho
      obtain ⟨p, hp, ho⟩ := List.mem_flatMap.1 ho
      obtain ⟨log', hderives, hlog'⟩ := ih p hp (hb p hp) slot siblings i log o ho log₁ hlog
      exact ⟨log', .choice hp hderives, hlog'⟩
  | backreference name =>
    intro slot siblings i log o ho log₁ hlog
    obtain ⟨child, hchild, rfl⟩ := List.mem_map.1 ho
    obtain ⟨hfits, hsame⟩ := List.mem_filter.1 hchild
    rw [Bool.and_eq_true, Bool.not_eq_true', List.isEmpty_eq_false_iff, List.all_eq_true,
      ← hlog] at hsame
    exact ⟨log₁, .backreference (Option.mem_toList.1 hfits) hsame.1 hsame.2, hlog⟩
  | literal kind text slots ih =>
    intro slot siblings i log o ho log₁ hlog
    cases hb with
    | literal hb =>
      obtain ⟨child, hchild, ho⟩ := List.mem_flatMap.1 ho
      obtain ⟨hfits, hsame⟩ := List.mem_filter.1 hchild
      obtain ⟨inner, hinner, rfl⟩ := List.mem_map.1 ho
      obtain ⟨hinner, hend⟩ := List.mem_filter.1 hinner
      obtain ⟨log', hderives, hlog'⟩ :=
        OutcomesDerived.inTurn (fun s hs => ih s hs (hb s hs)) hinner hlog
      rw [Bool.and_eq_true, beq_iff_eq] at hsame
      rw [beq_iff_eq] at hend
      rw [hend] at hderives
      refine ⟨log', .literal (Option.mem_toList.1 hfits) hsame.1 ?_ hderives, hlog'⟩
      rintro s rfl
      exact hsame.2
  | adapter construct p ih =>
    intro slot siblings i log o ho log₁ hlog
    cases hb with
    | adapter hb =>
      obtain ⟨ho, haccepts⟩ := List.mem_filter.1 ho
      obtain ⟨log', hderives, hlog'⟩ := ih hb slot siblings i log o ho log₁ hlog
      exact ⟨log', .adapter hderives (List.all_eq_true.1 haccepts), hlog'⟩

theorem DerivationsFound.inTurn {t : Target ν} {slots : List (Role × Pattern)}
    (hslots : ∀ s ∈ slots, s.2.DerivationsFound t) {siblings : Array (Child ν)}
    {o o' : Outcome ν} (h : DerivesInTurn t slots siblings o o') {log : Log ν}
    (hlog : log.boundTo = o.log.boundTo) :
    ∃ log', ⟨o'.index, log'⟩ ∈ outcomesInTurn t slots siblings o.index log ∧
      log'.boundTo = o'.log.boundTo := by
  induction slots generalizing o log with
  | nil =>
    cases h
    exact ⟨log, List.mem_singleton.2 rfl, hlog⟩
  | cons s slots ih =>
    cases h with
    | cons hfirst hrest =>
      obtain ⟨hs, hslots⟩ := List.forall_mem_cons.1 hslots
      obtain ⟨log₁, hmem, hlog₁⟩ := hs _ siblings o _ hfirst log hlog
      obtain ⟨log', hmem', hlog'⟩ := ih hslots hrest hlog₁
      exact ⟨log', List.mem_flatMap.2 ⟨_, hmem, hmem'⟩, hlog'⟩

/-- Times that match nothing are left out. When fewer are left than the repetition needs, the
pattern can match nothing, and one time that does makes up for those missing. -/
theorem DerivationsFound.times {t : Target ν} {p : Pattern} (hp : p.DerivationsFound t) {min : Nat}
    {max : Option Nat} {slot : Role} {siblings : Array (Child ν)} {k count : Nat}
    {o o' : Outcome ν} (h : DerivesInTurn t (List.replicate k (slot, p)) siblings o o')
    (hmax : ∀ limit, max = some limit → count + k ≤ limit) (hmin : min ≤ count + k ∨ p.nullable)
    {log : Log ν} (hlog : log.boundTo = o.log.boundTo) :
    ∃ log', ⟨o'.index, log'⟩ ∈ repeatOutcomes siblings.size (p.outcomes t slot siblings) min max
        count o.index log ∧ log'.boundTo = o'.log.boundTo := by
  induction k generalizing count o log with
  | zero =>
    cases h
    by_cases hlacks : count < min
    · have hnull : p.nullable := hmin.resolve_left (by omega)
      obtain ⟨log₁, hmem, hlog₁⟩ := exists_outcome_of_nullable t hnull slot siblings o'.index log
      refine ⟨log₁, mem_repeatOutcomes.2 (.inr ⟨.inl hlacks, _, hmem, ?_⟩), hlog₁.trans hlog⟩
      rw [if_neg (fun hlt => Nat.lt_irrefl _ hlt.1)]
      exact List.mem_singleton.2 rfl
    · exact ⟨log, mem_repeatOutcomes.2 (.inl ⟨hlacks, rfl⟩), hlog⟩
  | succ k ih =>
    cases h with
    | @cons _ _ _ _ _ first _ hfirst hrest =>
      by_cases hstays : first.index = o.index
      · obtain ⟨hnull, hlog₁⟩ := hfirst.nullable hstays
        have hmax' : ∀ limit, max = some limit → count + k ≤ limit := by
          intro limit hlimit
          have := hmax limit hlimit
          omega
        rw [← hstays]
        exact ih hrest hmax' (.inr hnull) (hlog.trans hlog₁.symm)
      · have hreach := hfirst.inReach
        unfold InReach at hreach
        obtain ⟨log₁, hmem, hlog₁⟩ := hp slot siblings o first hfirst log hlog
        have hmax' : ∀ limit, max = some limit → count + 1 + k ≤ limit := by
          intro limit hlimit
          have := hmax limit hlimit
          omega
        obtain ⟨log', hmem', hlog'⟩ :=
          ih hrest hmax' (hmin.imp_left (fun hle => by omega)) hlog₁
        have hgoes : count < min ∨ mayRepeat max count := by
          cases max with
          | none => exact .inr rfl
          | some limit =>
            have := hmax limit rfl
            exact .inr (mayRepeat_some.2 (by omega))
        refine ⟨log', mem_repeatOutcomes.2 (.inr ⟨hgoes, _, hmem, ?_⟩), hlog'⟩
        rw [if_pos (show o.index < first.index ∧ first.index ≤ siblings.size by omega)]
        exact hmem'

/-- The matcher loses nothing. -/
theorem derivationsFound (t : Target ν) (p : Pattern) : p.DerivationsFound t := by
  induction p using Pattern.induct with
  | any name =>
    intro slot siblings o o' h log hlog
    cases h with
    | any hfits =>
      refine ⟨_, List.mem_map_of_mem (Option.mem_toList.2 hfits), ?_⟩
      cases name with
      | none => exact hlog
      | some name =>
        funext other
        simp only [Option.elim_some, Log.boundTo_add, hlog]
  | capture name p ih =>
    intro slot siblings o o' h log hlog
    cases h with
    | capture h =>
      obtain ⟨log', hmem, hlog'⟩ := ih slot siblings o _ h log hlog
      refine ⟨_, List.mem_map.2 ⟨_, hmem, rfl⟩, ?_⟩
      funext other
      simp only [Log.boundTo_addRun, hlog']
  | optional p ih =>
    intro slot siblings o o' h log hlog
    cases h with
    | optional h =>
      obtain ⟨log', hmem, hlog'⟩ := ih slot siblings o _ h log hlog
      exact ⟨log', List.mem_append_left _ hmem, hlog'⟩
    | nothing => exact ⟨log, List.mem_append_right _ (List.mem_singleton.2 rfl), hlog⟩
  | repetition p min max ih =>
    intro slot siblings o o' h log hlog
    cases h with
    | repetition hmin hmax h =>
      refine ih.times h ?_ (.inl ?_) hlog
      · intro limit hlimit
        have := hmax limit hlimit
        omega
      · omega
  | choice ps ih =>
    intro slot siblings o o' h log hlog
    cases h with
    | choice hp h =>
      obtain ⟨log', hmem, hlog'⟩ := ih _ hp slot siblings o _ h log hlog
      refine ⟨log', ?_, hlog'⟩
      rw [outcomes, outcomesOfEach_eq_flatMap]
      exact List.mem_flatMap.2 ⟨_, hp, hmem⟩
  | backreference name =>
    intro slot siblings o o' h log hlog
    cases h with
    | backreference hfits hbound hsame =>
      refine ⟨log, List.mem_map.2 ⟨_, List.mem_filter.2 ⟨Option.mem_toList.2 hfits, ?_⟩, rfl⟩, hlog⟩
      rw [Bool.and_eq_true, Bool.not_eq_true', List.isEmpty_eq_false_iff, List.all_eq_true, hlog]
      exact ⟨hbound, hsame⟩
  | literal kind text slots ih =>
    intro slot siblings o o' h log hlog
    cases h with
    | literal hfits hkind htext h =>
      obtain ⟨log', hmem, hlog'⟩ := DerivationsFound.inTurn ih h hlog
      refine ⟨log', List.mem_flatMap.2 ⟨_, List.mem_filter.2 ⟨Option.mem_toList.2 hfits, ?_⟩,
        List.mem_map.2 ⟨_, List.mem_filter.2 ⟨hmem, beq_self_eq_true _⟩, rfl⟩⟩, hlog'⟩
      rw [Bool.and_eq_true, beq_iff_eq]
      refine ⟨hkind, ?_⟩
      cases text with
      | none => rfl
      | some s => exact htext s rfl
  | adapter construct p ih =>
    intro slot siblings o o' h log hlog
    cases h with
    | adapter h haccepts =>
      obtain ⟨log', hmem, hlog'⟩ := ih slot siblings o _ h log hlog
      exact ⟨log', List.mem_filter.2 ⟨hmem, List.all_eq_true.2 haccepts⟩, hlog'⟩

end Pattern

/-- Matches and derivations capture the same nodes. A name bound to nothing counts as not bound. -/
theorem exists_matchesOf_iff (t : Target ν) {elements : List Pattern}
    (hb : ∀ s ∈ inNoSlot elements, s.2.BoundsInOrder) (siblings : List (Child ν))
    (nodes : String → List ν) :
    (∃ found ∈ matchesOf t elements siblings, found.get = nodes) ↔
      ∃ log, DerivesAll t elements siblings log ∧ log.boundTo = nodes := by
  constructor
  · rintro ⟨found, hfound, rfl⟩
    obtain ⟨o, ho, rfl⟩ := List.mem_map.1 hfound
    obtain ⟨ho, hend⟩ := List.mem_filter.1 ho
    obtain ⟨log, hderives, hlog⟩ := Pattern.OutcomesDerived.inTurn
      (fun s hs => s.2.outcomesDerived t (hb s hs)) ho (rfl : Log.empty.boundTo = _)
    rw [beq_iff_eq.1 hend] at hderives
    exact ⟨log, hderives, by rw [hlog, Match.get_ofLog]⟩
  · rintro ⟨log, hderives, rfl⟩
    obtain ⟨log', hmem, hlog⟩ := Pattern.DerivationsFound.inTurn
      (fun s _ => s.2.derivationsFound t) hderives (rfl : Log.empty.boundTo = _)
    refine ⟨.ofLog log', List.mem_map.2 ⟨_, List.mem_filter.2 ⟨hmem, beq_self_eq_true _⟩, rfl⟩, ?_⟩
    rw [Match.get_ofLog, hlog]

theorem CheckedPattern.hasMatch_iff (t : Target ν) (p : CheckedPattern) (n : ν) :
    p.hasMatch t n ↔ ∃ found, found ∈ matchesOf t p.elements [⟨.root, n⟩] := by
  rw [hasMatch, preferred?_eq_head?, List.isSome_head?]
  exact ⟨List.exists_mem_of_ne_nil _, fun ⟨_, h⟩ => List.ne_nil_of_mem h⟩

/-- Ending a repetition at a time that matches nothing loses and invents nothing: the nodes captured
by the results are those captured by the derivations that leave no sibling over, and a node has a
match when a derivation matches it. -/
theorem captured_nodes_are_derived (t : Target ν) (p : CheckedPattern) :
    (∀ (siblings : List (Child ν)) (nodes : String → List ν),
      (∃ found ∈ (Matcher.start p.elements siblings).results t, found.get = nodes) ↔
        ∃ log, DerivesAll t p.elements siblings log ∧ log.boundTo = nodes) ∧
    ∀ n, p.hasMatch t n ↔ ∃ log, DerivesAll t p.elements [⟨.root, n⟩] log := by
  constructor
  · intro siblings nodes
    rw [Matcher.results_start, exists_matchesOf_iff t p.boundsInOrder]
  · intro n
    rw [CheckedPattern.hasMatch_iff]
    constructor
    · rintro ⟨found, hfound⟩
      obtain ⟨log, hderives, -⟩ :=
        (exists_matchesOf_iff t p.boundsInOrder [⟨.root, n⟩] found.get).1 ⟨found, hfound, rfl⟩
      exact ⟨log, hderives⟩
    · rintro ⟨log, hderives⟩
      obtain ⟨found, hfound, -⟩ :=
        (exists_matchesOf_iff t p.boundsInOrder [⟨.root, n⟩] log.boundTo).2 ⟨log, hderives, rfl⟩
      exact ⟨found, hfound⟩

end StructuralSearch
