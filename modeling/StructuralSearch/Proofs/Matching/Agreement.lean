import Mathlib.Data.List.Forall2
import StructuralSearch.Proofs.Matching.Refinement

/-!
# Agreeing outcomes

Two ways of matching can be followed side by side. Then the outcomes of the first are found again,
in their order, among those of the second: each stops at the same place, after captures that agree.
When the parts keep this, so do a repetition of one part and several parts in turn.
-/
namespace StructuralSearch

/-! ## Lists whose members are found again -/

section

open List (Forall₂ SublistForall₂)

variable {α α' β β' : Type} {R : α → α' → Prop} {S : β → β' → Prop}

theorem sublistForall₂_append {few more : List α} {few' more' : List α'}
    (h : SublistForall₂ R few few') (hmore : SublistForall₂ R more more') :
    SublistForall₂ R (few ++ more) (few' ++ more') := by
  obtain ⟨kept, hkept, hsub⟩ := List.sublistForall₂_iff.1 h
  obtain ⟨kept', hkept', hsub'⟩ := List.sublistForall₂_iff.1 hmore
  exact List.sublistForall₂_iff.2 ⟨kept ++ kept', List.rel_append hkept hkept', hsub.append hsub'⟩

theorem sublistForall₂_flatMap {few : List α} {many : List α'} {f : α → List β} {g : α' → List β'}
    (h : SublistForall₂ R few many) (hfg : ∀ a a', R a a' → SublistForall₂ S (f a) (g a')) :
    SublistForall₂ S (few.flatMap f) (many.flatMap g) := by
  induction h with
  | nil => exact .nil
  | cons hfirst _ ih => exact sublistForall₂_append (hfg _ _ hfirst) ih
  | cons_right _ ih => exact sublistForall₂_append .nil ih

theorem sublistForall₂_map {few : List α} {many : List α'} {f : α → β} {g : α' → β'}
    (h : SublistForall₂ R few many) (hfg : ∀ a a', R a a' → S (f a) (g a')) :
    SublistForall₂ S (few.map f) (many.map g) := by
  rw [List.map_eq_flatMap, List.map_eq_flatMap]
  exact sublistForall₂_flatMap h fun a a' ha => .cons (hfg a a' ha) .nil

theorem sublistForall₂_filter {few : List α} {many : List α'} {p : α → Bool} {q : α' → Bool}
    (h : SublistForall₂ R few many) (hpq : ∀ a a', R a a' → p a → q a') :
    SublistForall₂ R (few.filter p) (many.filter q) := by
  induction h with
  | nil => exact .nil
  | @cons a a' few many ha _ ih =>
    by_cases hp : p a
    · rw [List.filter_cons_of_pos hp, List.filter_cons_of_pos (hpq a a' ha hp)]
      exact .cons ha ih
    · rw [List.filter_cons_of_neg hp, List.filter_cons]
      split
      · exact .cons_right ih
      · exact ih
  | cons_right _ ih =>
    rw [List.filter_cons]
    split
    · exact .cons_right ih
    · exact ih

theorem sublistForall₂_of_forall₂ {as : List α} {as' : List α'} (h : Forall₂ R as as') :
    SublistForall₂ R as as' :=
  List.sublistForall₂_iff.2 ⟨as', h, .refl as'⟩

theorem all_of_forall₂ {as : List α} {as' : List α'} {p : α → Bool} {q : α' → Bool}
    (h : Forall₂ R as as') (hpq : ∀ a a', R a a' → p a → q a') (hall : as.all p) : as'.all q := by
  induction h with
  | nil => rfl
  | cons ha _ ih =>
    rw [List.all_cons, Bool.and_eq_true] at hall ⊢
    exact ⟨hpq _ _ ha hall.1, ih hall.2⟩

end

/-! ## Outcomes -/

variable {ν ν' : Type}

/-- The outcomes stop at the same place, after logs that agree. -/
def Outcome.Agree (logs : Log ν → Log ν' → Prop) (o : Outcome ν) (o' : Outcome ν') : Prop :=
  o'.index = o.index ∧ logs o.log o'.log

/-- From each place and after logs that agree, the outcomes of the first are found again among those
of the second. -/
def FoundAgain (logs : Log ν → Log ν' → Prop) (once : Nat → Log ν → List (Outcome ν))
    (once' : Nat → Log ν' → List (Outcome ν')) : Prop :=
  ∀ i log log', logs log log' →
    List.SublistForall₂ (Outcome.Agree logs) (once i log) (once' i log')

/-- Where only the same logs agree, the outcomes are those of the second, with some left out. -/
theorem foundAgain_eq_iff {once once' : Nat → Log ν → List (Outcome ν)} :
    FoundAgain Eq once once' ↔ ∀ i log, (once i log).Sublist (once' i log) := by
  have hagree : (Outcome.Agree Eq : Outcome ν → Outcome ν → Prop) = Eq := by
    funext ⟨i, log⟩ ⟨i', log'⟩
    rw [Outcome.Agree, Outcome.mk.injEq, eq_comm (a := i')]
  constructor
  · intro h i log
    obtain ⟨kept, hkept, hsub⟩ := List.sublistForall₂_iff.1 (h i log log rfl)
    rw [hagree, List.forall₂_eq_eq_eq] at hkept
    exact hkept ▸ hsub
  · rintro h i log _ rfl
    rw [hagree]
    exact (h i log).sublistForall₂

variable {logs : Log ν → Log ν' → Prop}

/-- A repetition: a time is the last one or not by where it stops, which depends on no other
outcome. -/
theorem FoundAgain.repetition {once : Nat → Log ν → List (Outcome ν)}
    {once' : Nat → Log ν' → List (Outcome ν')} (h : FoundAgain logs once once') (n min : Nat)
    (max : Option Nat) (count : Nat) :
    FoundAgain logs (repeatOutcomes n once min max count)
      (repeatOutcomes n once' min max count) := by
  intro i log log' hlog
  induction hd : n - i using Nat.strongRecOn generalizing count i log log' with
  | ind d ih =>
    have honceMore : List.SublistForall₂ (Outcome.Agree logs)
        ((once i log).flatMap fun o => if i < o.index ∧ o.index ≤ n then
          repeatOutcomes n once min max (count + 1) o.index o.log else [o])
        ((once' i log').flatMap fun o => if i < o.index ∧ o.index ≤ n then
          repeatOutcomes n once' min max (count + 1) o.index o.log else [o]) := by
      refine sublistForall₂_flatMap (h i log log' hlog) fun o o' ho => ?_
      rw [ho.1]
      split
      · rename_i further
        exact ih (n - o.index) (by omega) (count + 1) o.index o.log o'.log ho.2 rfl
      · exact .cons ho .nil
    have hstop : List.SublistForall₂ (Outcome.Agree logs) [⟨i, log⟩] [⟨i, log'⟩] :=
      .cons ⟨rfl, hlog⟩ .nil
    rw [repeatOutcomes, repeatOutcomes]
    split
    · exact honceMore
    · split
      · exact sublistForall₂_append honceMore hstop
      · exact hstop

section

variable {t : Target ν} {t' : Target ν'} {siblings : Array (Child ν)} {siblings' : Array (Child ν')}

/-- The alternatives of a choice, one by one. -/
theorem FoundAgain.ofEach {slot : Role} {ps ps' : List Pattern}
    (h : List.Forall₂ (fun p p' => FoundAgain logs (p.outcomes t slot siblings)
      (p'.outcomes t' slot siblings')) ps ps') :
    FoundAgain logs (Pattern.outcomesOfEach t ps slot siblings)
      (Pattern.outcomesOfEach t' ps' slot siblings') := by
  intro i log log' hlog
  induction h with
  | nil => exact .nil
  | cons hfirst _ ih => exact sublistForall₂_append (hfirst i log log' hlog) ih

/-- Patterns in turn, each of them in its slot. -/
theorem FoundAgain.inTurn {slots slots' : List (Role × Pattern)}
    (h : List.Forall₂ (fun s s' => FoundAgain logs (s.2.outcomes t s.1 siblings)
      (s'.2.outcomes t' s'.1 siblings')) slots slots') :
    FoundAgain logs (Pattern.outcomesInTurn t slots siblings)
      (Pattern.outcomesInTurn t' slots' siblings') := by
  intro i log log' hlog
  induction h generalizing i log log' with
  | nil => exact .cons ⟨rfl, hlog⟩ .nil
  | cons hfirst _ ih =>
    refine sublistForall₂_flatMap (hfirst i log log' hlog) fun o o' ho => ?_
    rw [ho.1]
    exact ih o.index o.log o'.log ho.2

end

end StructuralSearch
