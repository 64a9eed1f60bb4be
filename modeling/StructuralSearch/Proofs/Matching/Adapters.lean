import Mathlib.Data.List.Flatten
import StructuralSearch.Proofs.Matching.Agreement
import StructuralSearch.Proofs.Pattern.Checking

/-!
# Adapters only filter

An adapter can be taken off the pattern inside it. The matcher then also goes on where it would have
gone back before, and back-references see what is captured there; but the ways that it went before
remain, with the same captures and in the same order. `Pattern.withoutAdapters` takes off the
adapters at any places that are chosen.
-/
namespace StructuralSearch

variable {ν : Type}

namespace Pattern

open Except (bind_eq_ok_iff seq_eq_ok_iff)

mutual

/-- The pattern with the adapters at the chosen places taken off. -/
def withoutAdapters (chosen : List Turn → Bool) : Pattern → Pattern
  | .any name => .any name
  | .capture name inner => .capture name (withoutAdapters (chosen ∘ .cons .inner) inner)
  | .optional inner => .optional (withoutAdapters (chosen ∘ .cons .inner) inner)
  | .repetition inner min max =>
    .repetition (withoutAdapters (chosen ∘ .cons .inner) inner) min max
  | .choice alternatives => .choice (eachWithoutAdapters .alternative chosen 0 alternatives)
  | .backreference name => .backreference name
  | .literal kind text slots => .literal kind text (slotsWithoutAdapters chosen 0 slots)
  | .adapter construct inner =>
    let bare := withoutAdapters (chosen ∘ .cons .inner) inner
    if chosen [] then bare else .adapter construct bare
termination_by structural p => p

/-- Each of the patterns, to which the turns from number `i` on lead. -/
def eachWithoutAdapters (turn : Nat → Turn) (chosen : List Turn → Bool) (i : Nat) :
    List Pattern → List Pattern
  | [] => []
  | p :: ps =>
    withoutAdapters (chosen ∘ .cons (turn i)) p :: eachWithoutAdapters turn chosen (i + 1) ps
termination_by structural ps => ps

def slotsWithoutAdapters (chosen : List Turn → Bool) (i : Nat) :
    List (Role × Pattern) → List (Role × Pattern)
  | [] => []
  | (role, p) :: rest =>
    (role, withoutAdapters (chosen ∘ .cons (.slot i role)) p) ::
      slotsWithoutAdapters chosen (i + 1) rest
termination_by structural slots => slots

end

/-! ## Checking -/

/-- Whatever the places chosen, checking the pattern without the adapters there gives the names that
checking the pattern gives. -/
def StaysChecked (p : Pattern) : Prop :=
  ∀ chosen slot known names, check slot p known = .ok names →
    check slot (p.withoutAdapters chosen) known = .ok names

theorem checkAlternatives_withoutAdapters {ps : List Pattern} (hps : ∀ p ∈ ps, p.StaysChecked)
    (chosen : List Turn → Bool) (i : Nat) {slot : Option Role} {before union names : List String}
    (h : checkAlternatives slot before ps union = .ok names) :
    checkAlternatives slot before (eachWithoutAdapters .alternative chosen i ps) union =
      .ok names := by
  induction ps generalizing i union with
  | nil => exact h
  | cons p rest ih =>
    obtain ⟨hp, hrest⟩ := List.forall_mem_cons.1 hps
    obtain ⟨after, hafter, h⟩ := bind_eq_ok_iff.1 h
    exact bind_eq_ok_iff.2 ⟨after, hp _ slot before after hafter, ih hrest (i + 1) h⟩

theorem checkSlots_withoutAdapters {slots : List (Role × Pattern)}
    (hslots : ∀ s ∈ slots, s.2.StaysChecked) (chosen : List Turn → Bool) (i : Nat)
    {known names : List String} (h : checkSlots slots known = .ok names) :
    checkSlots (slotsWithoutAdapters chosen i slots) known = .ok names := by
  induction slots generalizing i known with
  | nil => exact h
  | cons s rest ih =>
    obtain ⟨hs, hrest⟩ := List.forall_mem_cons.1 hslots
    obtain ⟨after, hafter, h⟩ := bind_eq_ok_iff.1 h
    exact bind_eq_ok_iff.2 ⟨after, hs _ (some s.1) known after hafter, ih hrest (i + 1) h⟩

theorem isEmpty_eachWithoutAdapters (turn : Nat → Turn) (chosen : List Turn → Bool) (i : Nat)
    (ps : List Pattern) : (eachWithoutAdapters turn chosen i ps).isEmpty = ps.isEmpty := by
  cases ps <;> rfl

/-- Nothing but an adapter itself is checked against the slot that it stands in. -/
theorem staysChecked (p : Pattern) : p.StaysChecked := by
  induction p using Pattern.induct with
  | any name => exact fun _ _ _ _ h => h
  | capture name p ih =>
    intro chosen slot known names h
    obtain ⟨after, hafter, h⟩ := bind_eq_ok_iff.1 h
    exact bind_eq_ok_iff.2 ⟨after, ih _ slot known after hafter, h⟩
  | optional p ih => exact fun chosen => ih (chosen ∘ .cons .inner)
  | repetition p min max ih =>
    intro chosen slot known names h
    obtain ⟨hbounds, h⟩ := seq_eq_ok_iff.1 h
    exact seq_eq_ok_iff.2 ⟨hbounds, ih _ slot known names h⟩
  | choice ps ih =>
    intro chosen slot known names h
    rw [check] at h
    rw [withoutAdapters, check, isEmpty_eachWithoutAdapters]
    split at h
    · cases h
    · rename_i hsome
      rw [if_neg hsome]
      exact checkAlternatives_withoutAdapters ih chosen 0 h
  | backreference name => exact fun _ _ _ _ h => h
  | literal kind text slots ih =>
    intro chosen slot known names h
    exact checkSlots_withoutAdapters ih chosen 0 h
  | adapter construct p ih =>
    intro chosen slot known names h
    obtain ⟨hadapter, h⟩ := seq_eq_ok_iff.1 h
    have hbare := ih (chosen ∘ .cons .inner) slot known names h
    rw [withoutAdapters]
    split
    · exact hbare
    · exact seq_eq_ok_iff.2 ⟨hadapter, hbare⟩

theorem checkSequence_withoutAdapters {elements : List Pattern} (chosen : List Turn → Bool)
    (i : Nat) {known names : List String} (h : checkSequence elements known = .ok names) :
    checkSequence (eachWithoutAdapters .element chosen i elements) known = .ok names := by
  induction elements generalizing i known with
  | nil => exact h
  | cons p rest ih =>
    obtain ⟨after, hafter, h⟩ := bind_eq_ok_iff.1 h
    exact bind_eq_ok_iff.2 ⟨after, staysChecked p _ none known after hafter, ih (i + 1) h⟩

end Pattern

/-! ## Matching -/

/-- A repetition keeps the outcomes of its times in order. -/
theorem repeatOutcomes_sublist {n : Nat} {once once' : Nat → Log ν → List (Outcome ν)}
    (h : ∀ i log, (once i log).Sublist (once' i log)) (min : Nat) (max : Option Nat)
    (count i : Nat) (log : Log ν) :
    (repeatOutcomes n once min max count i log).Sublist
      (repeatOutcomes n once' min max count i log) :=
  foundAgain_eq_iff.1 ((foundAgain_eq_iff.2 h).repetition n min max count) i log

namespace Pattern

/-- Whatever the places chosen, the pattern without the adapters there keeps the outcomes. -/
def KeepsOutcomes (t : Target ν) (p : Pattern) : Prop :=
  ∀ chosen slot siblings i log, (outcomes t p slot siblings i log).Sublist
    (outcomes t (p.withoutAdapters chosen) slot siblings i log)

theorem sublist_outcomesOfEach {t : Target ν} {ps : List Pattern}
    (hps : ∀ p ∈ ps, p.KeepsOutcomes t) (chosen : List Turn → Bool) (turn : Nat → Turn) (j : Nat)
    (slot : Role) (siblings : Array (Child ν)) (i : Nat) (log : Log ν) :
    (outcomesOfEach t ps slot siblings i log).Sublist
      (outcomesOfEach t (eachWithoutAdapters turn chosen j ps) slot siblings i log) := by
  induction ps generalizing j with
  | nil => exact .refl []
  | cons p rest ih =>
    obtain ⟨hp, hrest⟩ := List.forall_mem_cons.1 hps
    exact (hp _ slot siblings i log).append (ih hrest (j + 1))

/-- The outcomes of the one in its slot are among those of the other, in the same order. -/
def AmongOutcomes (t : Target ν) (s s' : Role × Pattern) : Prop :=
  ∀ siblings i log, (outcomes t s.2 s.1 siblings i log).Sublist
    (outcomes t s'.2 s'.1 siblings i log)

/-- Patterns in turn keep their outcomes in order when each of them does in its slot. -/
theorem outcomesInTurn_sublist {t : Target ν} {slots slots' : List (Role × Pattern)}
    (h : List.Forall₂ (AmongOutcomes t) slots slots')
    (siblings : Array (Child ν)) (i : Nat) (log : Log ν) :
    (outcomesInTurn t slots siblings i log).Sublist
      (outcomesInTurn t slots' siblings i log) :=
  foundAgain_eq_iff.1 (.inTurn (h.imp fun _ _ hfirst => foundAgain_eq_iff.2 (hfirst siblings))) i log

theorem forall₂_slotsWithoutAdapters {t : Target ν} {slots : List (Role × Pattern)}
    (hslots : ∀ s ∈ slots, s.2.KeepsOutcomes t) (chosen : List Turn → Bool) (j : Nat) :
    List.Forall₂ (AmongOutcomes t) slots (slotsWithoutAdapters chosen j slots) := by
  induction slots generalizing j with
  | nil => exact .nil
  | cons s rest ih =>
    obtain ⟨hs, hrest⟩ := List.forall_mem_cons.1 hslots
    exact .cons (hs _ s.1) (ih hrest (j + 1))

theorem keepsOutcomes (t : Target ν) (p : Pattern) : p.KeepsOutcomes t := by
  induction p using Pattern.induct with
  | any name => exact fun _ _ _ _ _ => .refl _
  | capture name p ih => exact fun _ slot siblings i log => (ih _ slot siblings i log).map _
  | optional p ih =>
    exact fun _ slot siblings i log => (ih _ slot siblings i log).append (.refl _)
  | repetition p min max ih =>
    intro chosen slot siblings i log
    exact repeatOutcomes_sublist (ih _ slot siblings) min max 0 i log
  | choice ps ih => exact fun chosen => sublist_outcomesOfEach ih chosen .alternative 0
  | backreference name => exact fun _ _ _ _ _ => .refl _
  | literal kind text slots ih =>
    intro chosen slot siblings i log
    apply List.Sublist.flatMap_right
    intro child _
    exact ((outcomesInTurn_sublist (forall₂_slotsWithoutAdapters ih chosen 0) _ 0 log).filter _).map _
  | adapter construct p ih =>
    intro chosen slot siblings i log
    have hbare := ih (chosen ∘ .cons .inner) slot siblings i log
    rw [withoutAdapters]
    split
    · exact List.filter_sublist.trans hbare
    · exact hbare.filter _

theorem forall₂_inNoSlot (t : Target ν) (chosen : List Turn → Bool) (j : Nat)
    (elements : List Pattern) : List.Forall₂ (AmongOutcomes t) (inNoSlot elements)
      (inNoSlot (eachWithoutAdapters .element chosen j elements)) := by
  induction elements generalizing j with
  | nil => exact .nil
  | cons p rest ih => exact .cons (keepsOutcomes t p _ .root) (ih (j + 1))

end Pattern

theorem matchesOf_withoutAdapters (t : Target ν) (elements : List Pattern)
    (chosen : List Pattern.Turn → Bool) (siblings : List (Child ν)) :
    (matchesOf t elements siblings).Sublist
      (matchesOf t (Pattern.eachWithoutAdapters .element chosen 0 elements) siblings) := by
  have hslots := Pattern.forall₂_inNoSlot t chosen 0 elements
  exact ((Pattern.outcomesInTurn_sublist hslots siblings.toArray 0 .empty).filter _).map _

/-- **Adapters only filter.** A checked pattern without the adapters at any chosen places is fit for
matching and captures the same names. Its matches with any siblings are those of the pattern, with
the same captures and in the same order, and perhaps others among them. -/
theorem matches_withoutAdapters (t : Target ν) (p : CheckedPattern)
    (chosen : List Pattern.Turn → Bool) :
    ∃ q, CheckedPattern.ofSequence (Pattern.eachWithoutAdapters .element chosen 0 p.elements) =
        .ok q ∧
      q.captures = p.captures ∧
      ∀ siblings : List (Child ν), ((Matcher.start p.elements siblings).results t).Sublist
        ((Matcher.start q.elements siblings).results t) := by
  have hchecked := Pattern.checkSequence_withoutAdapters chosen 0 p.checked
  refine ⟨⟨_, p.captures, hchecked⟩, CheckedPattern.ofSequence_eq_ok_iff.2 rfl, rfl, ?_⟩
  intro siblings
  rw [Matcher.results_start, Matcher.results_start]
  exact matchesOf_withoutAdapters t p.elements chosen siblings

end StructuralSearch
