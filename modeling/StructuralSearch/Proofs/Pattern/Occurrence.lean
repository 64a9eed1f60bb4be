import StructuralSearch.Pattern.Checked

/-!
# Occurrences in patterns

A pattern in parts holds other patterns. Each of them occurs at a place, which is given by the way
to it. Occurrences come in the order in which matching gets done with them: from left to right, and
the parts of a pattern before the whole. A back-reference can refer to what is bound before it,
unless the two stand in different alternatives of a choice: only one of these is matched.
-/
namespace StructuralSearch

namespace Pattern

/-- From a sequence to one of its elements, or from a pattern to one of its parts. -/
inductive Turn where
  | element (i : Nat)
  /-- To the only part. -/
  | inner
  | alternative (i : Nat)
  | slot (i : Nat) (role : Role)

structure Occurrence where
  way : List Turn
  pattern : Pattern

def Occurrence.below (turn : Turn) (o : Occurrence) : Occurrence :=
  ⟨turn :: o.way, o.pattern⟩

mutual

/-- All that occurs in a pattern, at last the pattern itself. -/
def occurrences : Pattern → List Occurrence
  | .any name => [⟨[], .any name⟩]
  | .capture name inner => (occurrences inner).map (.below .inner) ++ [⟨[], .capture name inner⟩]
  | .optional inner => (occurrences inner).map (.below .inner) ++ [⟨[], .optional inner⟩]
  | .repetition inner min max =>
    (occurrences inner).map (.below .inner) ++ [⟨[], .repetition inner min max⟩]
  | .choice alternatives =>
    occurrencesFrom .alternative 0 alternatives ++ [⟨[], .choice alternatives⟩]
  | .backreference name => [⟨[], .backreference name⟩]
  | .literal kind text slots => occurrencesInSlots 0 slots ++ [⟨[], .literal kind text slots⟩]
  | .adapter construct inner =>
    (occurrences inner).map (.below .inner) ++ [⟨[], .adapter construct inner⟩]
termination_by structural p => p

/-- All that occurs in patterns, to which the turns from number `i` on lead. -/
def occurrencesFrom (turn : Nat → Turn) (i : Nat) : List Pattern → List Occurrence
  | [] => []
  | p :: ps => (occurrences p).map (.below (turn i)) ++ occurrencesFrom turn (i + 1) ps
termination_by structural ps => ps

def occurrencesInSlots (i : Nat) : List (Role × Pattern) → List Occurrence
  | [] => []
  | (role, p) :: rest => (occurrences p).map (.below (.slot i role)) ++ occurrencesInSlots (i + 1) rest
termination_by structural slots => slots

end

/-- All that occurs in a sequence. -/
def occurrencesIn (elements : List Pattern) : List Occurrence :=
  occurrencesFrom .element 0 elements

theorem way_of_mem_occurrencesFrom {turn : Nat → Turn} {i : Nat} {ps : List Pattern}
    {o : Occurrence} (h : o ∈ occurrencesFrom turn i ps) :
    ∃ j way, i ≤ j ∧ o.way = turn j :: way := by
  induction ps generalizing i with
  | nil => cases h
  | cons p ps ih =>
    rcases List.mem_append.1 h with h | h
    · obtain ⟨o', -, rfl⟩ := List.mem_map.1 h
      exact ⟨i, o'.way, Nat.le_refl i, rfl⟩
    · obtain ⟨j, way, hj, hway⟩ := ih h
      exact ⟨j, way, Nat.le_of_succ_le hj, hway⟩

theorem way_of_mem_occurrencesInSlots {i : Nat} {slots : List (Role × Pattern)}
    {o : Occurrence} (h : o ∈ occurrencesInSlots i slots) :
    ∃ j role way, i ≤ j ∧ o.way = .slot j role :: way := by
  induction slots generalizing i with
  | nil => cases h
  | cons s rest ih =>
    rcases List.mem_append.1 h with h | h
    · obtain ⟨o', -, rfl⟩ := List.mem_map.1 h
      exact ⟨i, s.1, o'.way, Nat.le_refl i, rfl⟩
    · obtain ⟨j, role, way, hj, hway⟩ := ih h
      exact ⟨j, role, way, Nat.le_of_succ_le hj, hway⟩

/-- What occurs in one of several patterns occurs among all that does. -/
theorem exists_mem_occurrencesFrom (turn : Nat → Turn) (i : Nat) {ps : List Pattern} {p : Pattern}
    (hp : p ∈ ps) {o : Occurrence} (ho : o ∈ occurrences p) :
    ∃ o' ∈ occurrencesFrom turn i ps, o'.pattern = o.pattern := by
  induction ps generalizing i with
  | nil => cases hp
  | cons first rest ih =>
    rcases List.mem_cons.1 hp with rfl | hp
    · exact ⟨_, List.mem_append_left _ (List.mem_map_of_mem ho), rfl⟩
    · obtain ⟨o', ho', hpattern⟩ := ih (i + 1) hp
      exact ⟨o', List.mem_append_right _ ho', hpattern⟩

/-- What occurs in the pattern of a slot occurs among the slots. -/
theorem exists_mem_occurrencesInSlots (i : Nat) {slots : List (Role × Pattern)} {s : Role × Pattern}
    (hs : s ∈ slots) {o : Occurrence} (ho : o ∈ occurrences s.2) :
    ∃ o' ∈ occurrencesInSlots i slots, o'.pattern = o.pattern := by
  induction slots generalizing i with
  | nil => cases hs
  | cons first rest ih =>
    rcases List.mem_cons.1 hs with rfl | hs
    · exact ⟨_, List.mem_append_left _ (List.mem_map_of_mem ho), rfl⟩
    · obtain ⟨o', ho', hpattern⟩ := ih (i + 1) hs
      exact ⟨o', List.mem_append_right _ ho', hpattern⟩

theorem mem_occurrences_self (p : Pattern) : ⟨[], p⟩ ∈ occurrences p := by
  cases p with
  | any => exact List.mem_singleton_self _
  | backreference => exact List.mem_singleton_self _
  | capture | optional | repetition | choice | literal | adapter =>
    exact List.mem_append_right _ (List.mem_singleton_self _)

/-- All that occurs passes a test. -/
def Throughout (test : Pattern → Prop) (os : List Occurrence) : Prop :=
  ∀ o ∈ os, test o.pattern

namespace Throughout

variable {test : Pattern → Prop}

theorem self {p : Pattern} (h : Throughout test (occurrences p)) : test p :=
  h _ (mem_occurrences_self p)

theorem inner {turn : Turn} {p q : Pattern}
    (h : Throughout test ((occurrences p).map (.below turn) ++ [⟨[], q⟩])) :
    Throughout test (occurrences p) :=
  fun o ho => h (o.below turn) (List.mem_append_left _ (List.mem_map_of_mem ho))

theorem of_mem {turn : Nat → Turn} {i : Nat} {ps : List Pattern}
    (h : Throughout test (occurrencesFrom turn i ps)) :
    ∀ p ∈ ps, Throughout test (occurrences p) := by
  intro p hp o ho
  obtain ⟨o', ho', hpattern⟩ := exists_mem_occurrencesFrom turn i hp ho
  exact hpattern ▸ h o' ho'

theorem of_mem_slots {i : Nat} {slots : List (Role × Pattern)}
    (h : Throughout test (occurrencesInSlots i slots)) :
    ∀ s ∈ slots, Throughout test (occurrences s.2) := by
  intro s hs o ho
  obtain ⟨o', ho', hpattern⟩ := exists_mem_occurrencesInSlots i hs ho
  exact hpattern ▸ h o' ho'

theorem alternatives {ps : List Pattern} (h : Throughout test (occurrences (.choice ps))) :
    ∀ p ∈ ps, Throughout test (occurrences p) :=
  of_mem fun o ho => h o (List.mem_append_left _ ho)

theorem slots {kind : String} {text : Option String} {slots : List (Role × Pattern)}
    (h : Throughout test (occurrences (.literal kind text slots))) :
    ∀ s ∈ slots, Throughout test (occurrences s.2) :=
  of_mem_slots fun o ho => h o (List.mem_append_left _ ho)

end Throughout

/-- The ways lead into different alternatives of a choice. -/
def Apart (a b : List Turn) : Prop :=
  ∃ way i j, i ≠ j ∧ way ++ [.alternative i] <+: a ∧ way ++ [.alternative j] <+: b

theorem apart_cons_iff {turn : Turn} {a b : List Turn} :
    Apart (turn :: a) (turn :: b) ↔ Apart a b := by
  constructor
  · rintro ⟨way, i, j, hij, ha, hb⟩
    cases way with
    | nil =>
      obtain ⟨hi, -⟩ := List.cons_prefix_cons.1 ha
      obtain ⟨hj, -⟩ := List.cons_prefix_cons.1 hb
      cases hi.trans hj.symm
      exact absurd rfl hij
    | cons first way =>
      exact ⟨way, i, j, hij, (List.cons_prefix_cons.1 ha).2, (List.cons_prefix_cons.1 hb).2⟩
  · rintro ⟨way, i, j, hij, ha, hb⟩
    exact ⟨turn :: way, i, j, hij, List.cons_prefix_cons.2 ⟨rfl, ha⟩,
      List.cons_prefix_cons.2 ⟨rfl, hb⟩⟩

theorem apart_alternatives {i j : Nat} (h : i ≠ j) (a b : List Turn) :
    Apart (.alternative i :: a) (.alternative j :: b) :=
  ⟨[], i, j, h, List.prefix_append _ a, List.prefix_append _ b⟩

/-- Ways that begin differently, and not with alternatives, are not apart. -/
theorem not_apart_of_ne {first second : Turn} (h : first ≠ second)
    (hfirst : ∀ i, first ≠ .alternative i) (a b : List Turn) : ¬Apart (first :: a) (second :: b) := by
  rintro ⟨way, i, j, -, ha, hb⟩
  cases way with
  | nil => exact hfirst i (List.cons_prefix_cons.1 ha).1.symm
  | cons turn way =>
    exact h ((List.cons_prefix_cons.1 ha).1.symm.trans (List.cons_prefix_cons.1 hb).1)

theorem not_apart_nil (a : List Turn) : ¬Apart a [] := by
  rintro ⟨way, i, j, -, -, hb⟩
  exact List.append_ne_nil_of_right_ne_nil _ (List.cons_ne_nil _ _) (List.prefix_nil.1 hb)

/-- The name that a pattern binds by itself. -/
def binder? : Pattern → Option String
  | .any name => name
  | .capture name _ => some name
  | _ => none

/-- The name that a pattern refers to by itself. -/
def reference? : Pattern → Option String
  | .backreference name => some name
  | _ => none

/-- The names bound by occurrences, in their order. -/
def boundIn (os : List Occurrence) : List String :=
  os.filterMap (·.pattern.binder?)

@[simp] theorem boundIn_append (os os' : List Occurrence) :
    boundIn (os ++ os') = boundIn os ++ boundIn os' :=
  List.filterMap_append

@[simp] theorem boundIn_below (turn : Turn) (os : List Occurrence) :
    boundIn (os.map (.below turn)) = boundIn os :=
  List.filterMap_map

theorem mem_boundIn {os : List Occurrence} {name : String} :
    name ∈ boundIn os ↔ ∃ o ∈ os, o.pattern.binder? = some name :=
  List.mem_filterMap

/-! ## The names bound in a pattern -/

theorem boundIn_occurrencesFrom (turn : Nat → Turn) (i : Nat) (ps : List Pattern) :
    boundIn (occurrencesFrom turn i ps) = ps.flatMap fun p => boundIn (occurrences p) := by
  induction ps generalizing i with
  | nil => rfl
  | cons p ps ih => rw [occurrencesFrom, boundIn_append, boundIn_below, ih, List.flatMap_cons]

theorem boundIn_occurrencesInSlots (i : Nat) (slots : List (Role × Pattern)) :
    boundIn (occurrencesInSlots i slots) = slots.flatMap fun s => boundIn (occurrences s.2) := by
  induction slots generalizing i with
  | nil => rfl
  | cons s rest ih => rw [occurrencesInSlots, boundIn_append, boundIn_below, ih, List.flatMap_cons]

theorem boundIn_any (name : Option String) : boundIn (occurrences (.any name)) = name.toList := by
  cases name <;> rfl

theorem boundIn_capture (name : String) (p : Pattern) :
    boundIn (occurrences (.capture name p)) = boundIn (occurrences p) ++ [name] := by
  rw [occurrences, boundIn_append, boundIn_below]
  rfl

theorem boundIn_optional (p : Pattern) :
    boundIn (occurrences (.optional p)) = boundIn (occurrences p) := by
  rw [occurrences, boundIn_append, boundIn_below]
  exact List.append_nil _

theorem boundIn_repetition (p : Pattern) (min : Nat) (max : Option Nat) :
    boundIn (occurrences (.repetition p min max)) = boundIn (occurrences p) := by
  rw [occurrences, boundIn_append, boundIn_below]
  exact List.append_nil _

theorem boundIn_choice (ps : List Pattern) :
    boundIn (occurrences (.choice ps)) = ps.flatMap fun p => boundIn (occurrences p) := by
  rw [occurrences, boundIn_append, boundIn_occurrencesFrom]
  exact List.append_nil _

theorem boundIn_literal (kind : String) (text : Option String) (slots : List (Role × Pattern)) :
    boundIn (occurrences (.literal kind text slots)) =
      slots.flatMap fun s => boundIn (occurrences s.2) := by
  rw [occurrences, boundIn_append, boundIn_occurrencesInSlots]
  exact List.append_nil _

theorem boundIn_adapter (construct : Construct) (p : Pattern) :
    boundIn (occurrences (.adapter construct p)) = boundIn (occurrences p) := by
  rw [occurrences, boundIn_append, boundIn_below]
  exact List.append_nil _

/-! ## References -/

/-- The occurrence binds the name for another one after it: the two are not apart. -/
def Occurrence.Gives (b : Occurrence) (name : String) (o : Occurrence) : Prop :=
  b.pattern.binder? = some name ∧ ¬Apart b.way o.way

/-- Every back-reference refers to one of the `known` names, or to what one of the occurrences
before it binds for it. -/
def Resolved (known : List String) (os : List Occurrence) : Prop :=
  ∀ before o after name, os = before ++ o :: after → o.pattern.reference? = some name →
    name ∈ known ∨ ∃ b ∈ before, b.Gives name o

theorem resolved_nil (known : List String) : Resolved known [] :=
  fun _ _ _ _ h => absurd h.symm (List.append_ne_nil_of_right_ne_nil _ (List.cons_ne_nil _ _))

theorem resolved_singleton_iff {known : List String} {o : Occurrence} :
    Resolved known [o] ↔ ∀ name, o.pattern.reference? = some name → name ∈ known := by
  constructor
  · intro h name ho
    rcases h [] o [] name rfl ho with hname | ⟨b, hb, -⟩
    · exact hname
    · cases hb
  · intro h before other after name hsplit ho
    rcases List.append_eq_singleton_iff.1 hsplit.symm with ⟨rfl, hother⟩ | ⟨-, hother⟩
    · cases hother
      exact .inl (h name ho)
    · cases hother

/-- Two lists of occurrences one after the other: those of the second can also refer to the
first. -/
theorem resolved_append_iff {known : List String} {first second : List Occurrence} :
    Resolved known (first ++ second) ↔ Resolved known first ∧
      ∀ before o after name, second = before ++ o :: after → o.pattern.reference? = some name →
        name ∈ known ∨ ∃ b ∈ first ++ before, b.Gives name o := by
  constructor
  · intro h
    constructor
    · rintro before o after name rfl ho
      exact h before o (after ++ second) name (by simp) ho
    · rintro before o after name rfl ho
      exact h (first ++ before) o after name (by simp) ho
  · rintro ⟨hfirst, hsecond⟩ before o after name hsplit ho
    rcases List.append_eq_append_iff.1 hsplit with ⟨more, rfl, rfl⟩ | ⟨more, rfl, hmore⟩
    · exact hsecond more o after name rfl ho
    · cases more with
      | nil =>
        have h := hsecond [] o after name hmore.symm ho
        rwa [List.append_nil, List.append_nil] at h
      | cons other rest =>
        obtain ⟨rfl, rfl⟩ := List.cons.inj hmore
        exact hfirst before o rest name rfl ho

/-- Where none of the second list is apart from the first, all that the first binds is known. -/
theorem resolved_append_of_together {known known' : List String} {first second : List Occurrence}
    (htogether : ∀ b ∈ first, ∀ o ∈ second, ¬Apart b.way o.way)
    (hknown : ∀ name, name ∈ known' ↔ name ∈ known ∨ name ∈ boundIn first) :
    Resolved known (first ++ second) ↔ Resolved known first ∧ Resolved known' second := by
  rw [resolved_append_iff]
  refine and_congr_right fun _ => forall_congr' fun before => forall_congr' fun o =>
    forall_congr' fun after => forall_congr' fun name => ?_
  constructor
  · rintro h rfl ho
    rcases h rfl ho with hname | ⟨b, hb, hgives⟩
    · exact .inl ((hknown name).2 (.inl hname))
    · rcases List.mem_append.1 hb with hb | hb
      · exact .inl ((hknown name).2 (.inr (mem_boundIn.2 ⟨b, hb, hgives.1⟩)))
      · exact .inr ⟨b, hb, hgives⟩
  · rintro h rfl ho
    rcases h rfl ho with hname | ⟨b, hb, hgives⟩
    · rcases (hknown name).1 hname with hname | hname
      · exact .inl hname
      · obtain ⟨b, hb, hbinds⟩ := mem_boundIn.1 hname
        have hnot := htogether b hb o (List.mem_append_right _ List.mem_cons_self)
        exact .inr ⟨b, List.mem_append_left _ hb, hbinds, hnot⟩
    · exact .inr ⟨b, List.mem_append_right _ hb, hgives⟩

/-- Where all of the second list is apart from the first, it cannot refer to it. -/
theorem resolved_append_of_apart {known : List String} {first second : List Occurrence}
    (hapart : ∀ b ∈ first, ∀ o ∈ second, Apart b.way o.way) :
    Resolved known (first ++ second) ↔ Resolved known first ∧ Resolved known second := by
  rw [resolved_append_iff]
  refine and_congr_right fun _ => forall_congr' fun before => forall_congr' fun o =>
    forall_congr' fun after => forall_congr' fun name => ?_
  constructor
  · rintro h rfl ho
    refine (h rfl ho).imp_right ?_
    rintro ⟨b, hb, hgives⟩
    rcases List.mem_append.1 hb with hb | hb
    · exact absurd (hapart b hb o (List.mem_append_right _ List.mem_cons_self)) hgives.2
    · exact ⟨b, hb, hgives⟩
  · rintro h rfl ho
    refine (h rfl ho).imp_right ?_
    rintro ⟨b, hb, hgives⟩
    exact ⟨b, List.mem_append_right _ hb, hgives⟩

theorem gives_below_iff {turn : Turn} {b o : Occurrence} {name : String} :
    (b.below turn).Gives name (o.below turn) ↔ b.Gives name o :=
  and_congr_right fun _ => not_congr apart_cons_iff

theorem resolved_below_iff {known : List String} {turn : Turn} {os : List Occurrence} :
    Resolved known (os.map (.below turn)) ↔ Resolved known os := by
  constructor
  · rintro h before o after name rfl ho
    rcases h (before.map (.below turn)) (o.below turn) (after.map (.below turn)) name (by simp) ho
      with hname | ⟨b, hb, hgives⟩
    · exact .inl hname
    · obtain ⟨b', hb', rfl⟩ := List.mem_map.1 hb
      exact .inr ⟨b', hb', gives_below_iff.1 hgives⟩
  · intro h before o after name hsplit ho
    obtain ⟨before, rest, rfl, rfl, hrest⟩ := List.map_eq_append_iff.1 hsplit
    obtain ⟨o, after, rfl, rfl, rfl⟩ := List.map_eq_cons_iff.1 hrest
    rcases h before o after name rfl ho with hname | ⟨b, hb, hgives⟩
    · exact .inl hname
    · exact .inr ⟨b.below turn, List.mem_map_of_mem hb, gives_below_iff.2 hgives⟩

end Pattern
end StructuralSearch
