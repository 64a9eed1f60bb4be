import Mathlib.Data.List.Induction
import StructuralSearch.Proofs.Matching.Derivation
import StructuralSearch.Proofs.Pattern.Occurrence

/-!
# What checking accepts

Checking goes through a sequence once and keeps the names that it has come across. Between the
alternatives of a choice it goes back to those known before, and after the choice it goes on with
all of them together. `WellFormed` says without such a state what it accepts: each pattern is proper
at its place, and each back-reference refers to what an earlier occurrence binds for it.
-/
namespace StructuralSearch

namespace Pattern

open Except (bind_eq_ok_iff seq_eq_ok_iff)

/-- What a pattern has to satisfy by itself in its slot: names are not empty, bounds are in order, a
choice has alternatives, and an adapter is the one that the slot expects, if it expects any. -/
def Proper (slot : Option Role) : Pattern → Prop
  | .any name => name ≠ some ""
  | .capture name _ => name ≠ ""
  | .optional _ => True
  | .repetition _ min max => ∀ limit ∈ max, min ≤ limit
  | .choice alternatives => alternatives ≠ []
  | .backreference name => name ≠ ""
  | .literal _ _ _ => True
  | .adapter construct _ => ∀ role ∈ slot, ∀ expected ∈ role.expects, expected = construct

/-- The slot behind a turn. -/
def Turn.into (slot : Option Role) : Turn → Option Role
  | .slot _ role => some role
  | _ => slot

/-- The slot that a way leads to from a place in the given slot: the last one on the way. -/
def slotAfter (slot : Option Role) (way : List Turn) : Option Role :=
  way.foldl Turn.into slot

/-- Below a place in the slot and after the `known` names every occurrence is proper in the slot
that it stands in, and every back-reference has something to refer to. -/
structure Accepted (slot : Option Role) (known : List String) (os : List Occurrence) : Prop where
  proper : ∀ o ∈ os, o.pattern.Proper (slotAfter slot o.way)
  resolved : Resolved known os

/-- All that occurs in the sequence is accepted, in no slot and with no name known. -/
def WellFormed (elements : List Pattern) : Prop :=
  Accepted none [] (occurrencesIn elements)

section

variable {slot : Option Role} {known : List String} {first second : List Occurrence}

theorem accepted_nil (slot : Option Role) (known : List String) : Accepted slot known [] :=
  ⟨List.forall_mem_nil _, resolved_nil known⟩

/-- Two lists of occurrences one after the other, of which the second is resolved after the names
`known'`. -/
theorem accepted_append_iff {known' : List String}
    (happend : Resolved known (first ++ second) ↔ Resolved known first ∧ Resolved known' second) :
    Accepted slot known (first ++ second) ↔
      Accepted slot known first ∧ Accepted slot known' second := by
  constructor
  · rintro ⟨hproper, hresolved⟩
    obtain ⟨hfirst, hsecond⟩ := List.forall_mem_append.1 hproper
    obtain ⟨hfirst', hsecond'⟩ := happend.1 hresolved
    exact ⟨⟨hfirst, hfirst'⟩, ⟨hsecond, hsecond'⟩⟩
  · rintro ⟨hfirst, hsecond⟩
    exact ⟨List.forall_mem_append.2 ⟨hfirst.proper, hsecond.proper⟩,
      happend.2 ⟨hfirst.resolved, hsecond.resolved⟩⟩

theorem accepted_below_iff {turn : Turn} {os : List Occurrence} :
    Accepted slot known (os.map (.below turn)) ↔ Accepted (turn.into slot) known os := by
  constructor
  · rintro ⟨hproper, hresolved⟩
    refine ⟨fun o ho => ?_, resolved_below_iff.1 hresolved⟩
    exact hproper (o.below turn) (List.mem_map_of_mem ho)
  · rintro ⟨hproper, hresolved⟩
    refine ⟨fun o ho => ?_, resolved_below_iff.2 hresolved⟩
    obtain ⟨o', ho', rfl⟩ := List.mem_map.1 ho
    exact hproper o' ho'

theorem accepted_singleton_iff {p : Pattern} :
    Accepted slot known [⟨[], p⟩] ↔
      p.Proper slot ∧ ∀ name, p.reference? = some name → name ∈ known := by
  constructor
  · rintro ⟨hproper, hresolved⟩
    exact ⟨hproper _ (List.mem_singleton_self _), resolved_singleton_iff.1 hresolved⟩
  · rintro ⟨hproper, hknown⟩
    exact ⟨List.forall_mem_singleton.2 hproper, resolved_singleton_iff.2 hknown⟩

/-- A pattern that refers to nothing. -/
theorem accepted_own_iff {p : Pattern} (hp : p.reference? = none) :
    Accepted slot known [⟨[], p⟩] ↔ p.Proper slot := by
  rw [accepted_singleton_iff, hp]
  exact and_iff_left fun name h => absurd h.symm (Option.some_ne_none name)

theorem not_apart_own {p : Pattern} : ∀ b ∈ first, ∀ o ∈ [(⟨[], p⟩ : Occurrence)],
    ¬Apart b.way o.way := by
  intro b _ o ho
  obtain rfl := List.mem_singleton.1 ho
  exact not_apart_nil b.way

end

/-! ## Names -/

theorem mem_addName {names : List String} {name other : String} :
    other ∈ addName names name ↔ other ∈ names ∨ other = name := by
  unfold addName
  split
  · rename_i hname
    constructor
    · exact .inl
    · rintro (h | rfl)
      · exact h
      · exact List.contains_iff_mem.1 hname
  · rw [List.mem_append, List.mem_singleton]

theorem mem_foldl_addName {names known : List String} {name : String} :
    name ∈ names.foldl addName known ↔ name ∈ known ∨ name ∈ names := by
  induction names generalizing known with
  | nil => simp
  | cons first rest ih => rw [List.foldl_cons, ih, mem_addName, List.mem_cons, or_assoc]

theorem addName_of_mem {names : List String} {name : String} (h : name ∈ names) :
    addName names name = names :=
  if_pos (List.contains_iff_mem.2 h)

theorem addName_of_not_mem {names : List String} {name : String} (h : name ∉ names) :
    addName names name = names ++ [name] :=
  if_neg (mt List.contains_iff_mem.1 h)

/-- What one alternative adds to the names known before it, it adds to those of the others. -/
theorem foldl_addName_foldl {before union : List String} (h : ∀ name ∈ before, name ∈ union)
    (names : List String) :
    (names.foldl addName before).foldl addName union = names.foldl addName union := by
  induction names using List.reverseRecOn with
  | nil =>
    rw [List.foldl_nil, List.foldl_nil]
    induction before with
    | nil => rfl
    | cons first rest ih =>
      obtain ⟨hfirst, hrest⟩ := List.forall_mem_cons.1 h
      rw [List.foldl_cons, addName_of_mem hfirst, ih hrest]
  | append_singleton names name ih =>
    rw [List.foldl_append, List.foldl_append, List.foldl_cons, List.foldl_cons, List.foldl_nil,
      List.foldl_nil, ← ih]
    by_cases hname : name ∈ names.foldl addName before
    · rw [addName_of_mem hname, addName_of_mem (mem_foldl_addName.2 (.inr hname))]
    · rw [addName_of_not_mem hname, List.foldl_append, List.foldl_cons, List.foldl_nil]

/-- Names without those that come again. -/
theorem foldl_addName_eq_eraseDups (names : List String) :
    names.foldl addName [] = names.eraseDups := by
  induction names using List.reverseRecOn with
  | nil => rfl
  | append_singleton names name ih =>
    rw [List.foldl_append, ih, List.foldl_cons, List.foldl_nil, List.eraseDups_append]
    by_cases hname : name ∈ names
    · rw [addName_of_mem (List.mem_eraseDups.2 hname)]
      simp [List.removeAll, hname]
    · rw [addName_of_not_mem (mt List.mem_eraseDups.1 hname)]
      simp [List.removeAll, hname, List.eraseDups_cons]

/-! ## What each check accepts -/

theorem declare_eq_ok_iff {known names : List String} {name : String} :
    declare known name = .ok names ↔ name ≠ "" ∧ addName known name = names := by
  by_cases hempty : name = ""
  · rw [declare, if_pos (String.isEmpty_iff.2 hempty)]
    refine iff_of_false (fun h => ?_) fun h => h.1 hempty
    cases h
  · rw [declare, if_neg (mt String.isEmpty_iff.1 hempty), Except.ok.injEq]
    exact (and_iff_right hempty).symm

theorem checkBounds_eq_ok_iff {min : Nat} {max : Option Nat} :
    checkBounds min max = .ok () ↔ ∀ limit ∈ max, min ≤ limit := by
  cases max with
  | none => exact iff_of_true rfl fun _ h => nomatch h
  | some limit =>
    simp only [Option.mem_some_iff, forall_eq']
    by_cases hlt : min > limit
    · rw [checkBounds, if_pos hlt]
      refine iff_of_false (fun h => ?_) (Nat.not_le.2 hlt)
      cases h
    · rw [checkBounds, if_neg hlt]
      exact iff_of_true rfl (Nat.not_lt.1 hlt)

theorem checkAdapter_eq_ok_iff {slot : Option Role} {found : Construct} :
    checkAdapter slot found = .ok () ↔
      ∀ role ∈ slot, ∀ expected ∈ role.expects, expected = found := by
  match slot with
  | none => exact iff_of_true rfl fun _ h => nomatch h
  | some ⟨name, none⟩ =>
    simp only [Option.mem_some_iff, forall_eq']
    exact iff_of_true rfl fun _ h => nomatch h
  | some ⟨name, some expected⟩ =>
    simp only [Option.mem_some_iff, forall_eq']
    by_cases hsame : expected = found
    · rw [checkAdapter, if_pos hsame]
      exact iff_of_true rfl hsame
    · rw [checkAdapter, if_neg hsame]
      refine iff_of_false (fun h => ?_) hsame
      cases h

/-- Checking the pattern in any slot accepts all that occurs in it, and adds the names bound
there. -/
def ChecksOccurrences (p : Pattern) : Prop :=
  ∀ slot known names, check slot p known = .ok names ↔
    Accepted slot known (occurrences p) ∧ (boundIn (occurrences p)).foldl addName known = names

/-- A part is checked, and then the rest with the names known after the part. -/
theorem ChecksOccurrences.then_iff {p : Pattern} (hp : p.ChecksOccurrences)
    {slot : Option Role} {turn : Turn} {rest : List Occurrence}
    (htogether : ∀ b ∈ (occurrences p).map (Occurrence.below turn), ∀ o ∈ rest,
      ¬Apart b.way o.way) (known names : List String) :
    Accepted slot known ((occurrences p).map (Occurrence.below turn) ++ rest) ∧
        (boundIn ((occurrences p).map (Occurrence.below turn) ++ rest)).foldl addName known = names ↔
      ∃ after, check (turn.into slot) p known = .ok after ∧
        Accepted slot after rest ∧ (boundIn rest).foldl addName after = names := by
  have hknown : ∀ name, name ∈ (boundIn (occurrences p)).foldl addName known ↔
      name ∈ known ∨ name ∈ boundIn ((occurrences p).map (Occurrence.below turn)) := by
    intro name
    rw [boundIn_below]
    exact mem_foldl_addName
  rw [accepted_append_iff (resolved_append_of_together htogether hknown), accepted_below_iff,
    boundIn_append, boundIn_below, List.foldl_append]
  constructor
  · rintro ⟨⟨hfirst, hrest⟩, hnames⟩
    exact ⟨_, (hp (turn.into slot) known _).2 ⟨hfirst, rfl⟩, hrest, hnames⟩
  · rintro ⟨after, hcheck, hrest, hnames⟩
    obtain ⟨hfirst, rfl⟩ := (hp (turn.into slot) known after).1 hcheck
    exact ⟨⟨hfirst, hrest⟩, hnames⟩

/-- A pattern that refers to nothing and binds nothing itself, after its parts. -/
theorem whole_iff {p : Pattern} (hp : p.reference? = none) (hbinder : p.binder? = none)
    {slot : Option Role} {known names : List String} {os : List Occurrence} :
    Accepted slot known (os ++ [⟨[], p⟩]) ∧
        (boundIn (os ++ [⟨[], p⟩])).foldl addName known = names ↔
      p.Proper slot ∧ Accepted slot known os ∧ (boundIn os).foldl addName known = names := by
  have hbound : boundIn [⟨[], p⟩] = [] := List.filterMap_cons_none hbinder
  rw [accepted_append_iff (resolved_append_of_together not_apart_own fun _ => List.mem_append),
    accepted_own_iff hp, boundIn_append, hbound, List.append_nil, and_assoc, and_left_comm]

theorem checkAlternatives_eq_ok_iff {ps : List Pattern} (hps : ∀ p ∈ ps, p.ChecksOccurrences)
    {slot : Option Role} {before union names : List String} (hunion : ∀ name ∈ before, name ∈ union)
    (i : Nat) :
    checkAlternatives slot before ps union = .ok names ↔
      Accepted slot before (occurrencesFrom .alternative i ps) ∧
        (boundIn (occurrencesFrom .alternative i ps)).foldl addName union = names := by
  induction ps generalizing union i with
  | nil =>
    rw [checkAlternatives, Except.ok.injEq, occurrencesFrom]
    exact (and_iff_right (accepted_nil slot before)).symm
  | cons p ps ih =>
    obtain ⟨hp, hrest⟩ := List.forall_mem_cons.1 hps
    have hapart : ∀ b ∈ (occurrences p).map (Occurrence.below (.alternative i)),
        ∀ o ∈ occurrencesFrom .alternative (i + 1) ps, Apart b.way o.way := by
      intro b hb o ho
      obtain ⟨b, -, rfl⟩ := List.mem_map.1 hb
      obtain ⟨j, way, hj, hway⟩ := way_of_mem_occurrencesFrom ho
      rw [hway]
      exact apart_alternatives (by omega) b.way way
    have hlater : ∀ after : List String, ∀ name ∈ before, name ∈ after.foldl addName union :=
      fun _ name hname => mem_foldl_addName.2 (.inl (hunion name hname))
    rw [checkAlternatives, bind_eq_ok_iff, occurrencesFrom,
      accepted_append_iff (resolved_append_of_apart hapart),
      accepted_below_iff, boundIn_append, boundIn_below, List.foldl_append]
    constructor
    · rintro ⟨after, hcheck, hchecks⟩
      obtain ⟨hfirst, rfl⟩ := (hp slot before after).1 hcheck
      obtain ⟨hothers, hnames⟩ := (ih hrest (hlater _) (i + 1)).1 hchecks
      rw [foldl_addName_foldl hunion] at hnames
      exact ⟨⟨hfirst, hothers⟩, hnames⟩
    · rintro ⟨⟨hfirst, hothers⟩, hnames⟩
      refine ⟨_, (hp slot before _).2 ⟨hfirst, rfl⟩, (ih hrest (hlater _) (i + 1)).2 ⟨hothers, ?_⟩⟩
      rw [foldl_addName_foldl hunion]
      exact hnames

/-- The slot around a literal does not matter to its own slots. -/
theorem checkSlots_eq_ok_iff {slots : List (Role × Pattern)}
    (hslots : ∀ s ∈ slots, s.2.ChecksOccurrences) (slot : Option Role) {known names : List String}
    (i : Nat) :
    checkSlots slots known = .ok names ↔
      Accepted slot known (occurrencesInSlots i slots) ∧
        (boundIn (occurrencesInSlots i slots)).foldl addName known = names := by
  induction slots generalizing known i with
  | nil =>
    rw [checkSlots, Except.ok.injEq, occurrencesInSlots]
    exact (and_iff_right (accepted_nil slot known)).symm
  | cons s rest ih =>
    obtain ⟨hs, hrest⟩ := List.forall_mem_cons.1 hslots
    have htogether : ∀ b ∈ (occurrences s.2).map (Occurrence.below (.slot i s.1)),
        ∀ o ∈ occurrencesInSlots (i + 1) rest, ¬Apart b.way o.way := by
      intro b hb o ho
      obtain ⟨b, -, rfl⟩ := List.mem_map.1 hb
      obtain ⟨j, role, way, hj, hway⟩ := way_of_mem_occurrencesInSlots ho
      rw [hway]
      refine not_apart_of_ne (fun h => ?_) (fun _ h => ?_) b.way way
      · cases h
        omega
      · cases h
    rw [checkSlots, bind_eq_ok_iff, occurrencesInSlots,
      hs.then_iff htogether]
    exact exists_congr fun after => and_congr_right fun _ => ih hrest (i + 1)

theorem checksOccurrences (p : Pattern) : p.ChecksOccurrences := by
  induction p using Pattern.induct with
  | any name =>
    intro slot known names
    rw [occurrences, accepted_own_iff rfl]
    cases name with
    | none =>
      rw [check, Except.ok.injEq]
      exact (and_iff_right (Option.some_ne_none "").symm).symm
    | some name =>
      rw [check, declare_eq_ok_iff]
      exact and_congr_left fun _ => not_congr (Option.some.injEq _ _ ▸ Iff.rfl)
  | capture name p ih =>
    intro slot known names
    rw [occurrences, ih.then_iff not_apart_own, check, bind_eq_ok_iff]
    refine exists_congr fun after => and_congr_right fun _ => ?_
    rw [declare_eq_ok_iff, accepted_own_iff rfl]
    rfl
  | optional p ih =>
    intro slot known names
    rw [occurrences, whole_iff rfl rfl, accepted_below_iff, boundIn_below, check, ih]
    exact (and_iff_right trivial).symm
  | repetition p min max ih =>
    intro slot known names
    rw [occurrences, whole_iff rfl rfl, accepted_below_iff, boundIn_below, check,
      seq_eq_ok_iff, checkBounds_eq_ok_iff, ih]
    rfl
  | choice ps ih =>
    intro slot known names
    rw [occurrences, whole_iff rfl rfl, check]
    by_cases hnone : ps = []
    · rw [if_pos (List.isEmpty_iff.2 hnone)]
      refine iff_of_false (fun h => ?_) fun h => h.1 hnone
      cases h
    · rw [if_neg (mt List.isEmpty_iff.1 hnone), checkAlternatives_eq_ok_iff ih (fun _ h => h) 0]
      exact (and_iff_right hnone).symm
  | backreference name =>
    intro slot known names
    rw [occurrences, accepted_singleton_iff, check]
    by_cases hempty : name = ""
    · rw [if_pos (String.isEmpty_iff.2 hempty)]
      refine iff_of_false (fun h => ?_) fun h => h.1.1 hempty
      cases h
    · rw [if_neg (mt String.isEmpty_iff.1 hempty)]
      by_cases hname : name ∈ known
      · rw [if_pos (List.contains_iff_mem.2 hname), Except.ok.injEq]
        refine (and_iff_right ⟨hempty, fun other hother => ?_⟩).symm
        rw [← Option.some.inj hother]
        exact hname
      · rw [if_neg (mt List.contains_iff_mem.1 hname)]
        refine iff_of_false (fun h => ?_) fun h => hname (h.1.2 name rfl)
        cases h
  | literal kind text slots ih =>
    intro slot known names
    rw [occurrences, whole_iff rfl rfl, check, checkSlots_eq_ok_iff ih slot 0]
    exact (and_iff_right trivial).symm
  | adapter construct p ih =>
    intro slot known names
    rw [occurrences, whole_iff rfl rfl, accepted_below_iff, boundIn_below, check,
      seq_eq_ok_iff, checkAdapter_eq_ok_iff, ih]
    rfl

theorem checkSequence_eq_ok_iff {elements : List Pattern} {known names : List String} (i : Nat) :
    checkSequence elements known = .ok names ↔
      Accepted none known (occurrencesFrom .element i elements) ∧
        (boundIn (occurrencesFrom .element i elements)).foldl addName known = names := by
  induction elements generalizing known i with
  | nil =>
    rw [checkSequence, Except.ok.injEq, occurrencesFrom]
    exact (and_iff_right (accepted_nil none known)).symm
  | cons p rest ih =>
    have htogether : ∀ b ∈ (occurrences p).map (Occurrence.below (.element i)),
        ∀ o ∈ occurrencesFrom .element (i + 1) rest, ¬Apart b.way o.way := by
      intro b hb o ho
      obtain ⟨b, -, rfl⟩ := List.mem_map.1 hb
      obtain ⟨j, way, hj, hway⟩ := way_of_mem_occurrencesFrom ho
      rw [hway]
      refine not_apart_of_ne (fun h => ?_) (fun _ h => ?_) b.way way
      · cases h
        omega
      · cases h
    rw [checkSequence, bind_eq_ok_iff, occurrencesFrom, (checksOccurrences p).then_iff htogether]
    exact exists_congr fun after => and_congr_right fun _ => ih (i + 1)

end Pattern

namespace CheckedPattern

theorem ofSequence_eq_ok_iff {elements : List Pattern} {p : CheckedPattern} :
    ofSequence elements = .ok p ↔ p.elements = elements := by
  obtain ⟨elements', captures, hchecked⟩ := p
  unfold ofSequence
  constructor
  · intro h
    split at h
    · cases h
      rfl
    · cases h
  · rintro rfl
    split
    · rename_i names hnames
      cases hnames.symm.trans hchecked
      rfl
    · rename_i fault hfault
      cases hfault.symm.trans hchecked

theorem ofPattern_eq_ok_iff {pattern : Pattern} {p : CheckedPattern} :
    ofPattern pattern = .ok p ↔ p.elements = [pattern] :=
  ofSequence_eq_ok_iff

/-- The names captured are those bound in the elements, in their order and each of them once. -/
theorem captures_eq (p : CheckedPattern) :
    p.captures = (Pattern.boundIn (Pattern.occurrencesIn p.elements)).eraseDups := by
  obtain ⟨-, hnames⟩ := (Pattern.checkSequence_eq_ok_iff 0).1 p.checked
  rw [← Pattern.foldl_addName_eq_eraseDups]
  exact hnames.symm

/-- **Checking accepts the well-formed sequences.** It succeeds for these and no others, and gives
the names bound in the sequence, in their order and each of them once. -/
theorem ofSequence_accepts (elements : List Pattern) :
    ((∃ p, ofSequence elements = .ok p) ↔ Pattern.WellFormed elements) ∧
      ∀ p, ofSequence elements = .ok p → p.elements = elements ∧
        p.captures = (Pattern.boundIn (Pattern.occurrencesIn elements)).eraseDups := by
  have hcheck : ∀ names, Pattern.checkSequence elements [] = .ok names ↔
      Pattern.WellFormed elements ∧
        (Pattern.boundIn (Pattern.occurrencesIn elements)).foldl Pattern.addName [] = names :=
    fun _ => Pattern.checkSequence_eq_ok_iff 0
  refine ⟨⟨?_, ?_⟩, ?_⟩
  · rintro ⟨p, hp⟩
    have hchecked := p.checked
    rw [ofSequence_eq_ok_iff.1 hp] at hchecked
    exact ((hcheck p.captures).1 hchecked).1
  · intro h
    exact ⟨⟨elements, _, (hcheck _).2 ⟨h, rfl⟩⟩, ofSequence_eq_ok_iff.2 rfl⟩
  · intro p hp
    have helements := ofSequence_eq_ok_iff.1 hp
    have hchecked := p.checked
    rw [helements] at hchecked
    refine ⟨helements, ?_⟩
    rw [← ((hcheck p.captures).1 hchecked).2, Pattern.foldl_addName_eq_eraseDups]

end CheckedPattern
end StructuralSearch
