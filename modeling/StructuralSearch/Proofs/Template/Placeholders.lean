import Mathlib.Data.List.Nodup
import StructuralSearch.Proofs.Pattern.Checking
import StructuralSearch.Proofs.Template.Segments
import StructuralSearch.Proofs.Text.Boundaries
import StructuralSearch.Template.Metavariable

/-!
# Placeholders

A template is well written when its dollar signs stand alone or in threes, each time in front of a
name, and no name of a run stands there again. Then, and only then, it can be put into code: each
metavariable gives way to a placeholder, all else stays, and every metavariable is listed with the
place of its first dollar sign. A placeholder tells its metavariable, whatever the underscores in
the name.
-/
namespace StructuralSearch.Template

open Except (bind_eq_ok_iff)

/-! ## A placeholder tells its metavariable -/

theorem toList_placeholder (name : String) (kind : MetavariableKind) :
    (placeholder name kind).toList =
      kind.placeholderStart.toList ++ (name.toList ++ placeholderEnd.toList) := by
  rw [placeholder, String.toList_append, String.toList_append, List.append_assoc]

theorem nameInPlaceholder?_placeholder {name : String} (h : name ≠ "") (kind : MetavariableKind) :
    nameInPlaceholder? kind (placeholder name kind) = some name := by
  have hname : name.toList.isEmpty = false := by
    rwa [List.isEmpty_eq_false_iff, Ne, String.toList_eq_nil_iff]
  have hfront : ∀ front rest : List Char, front.isPrefixOf? (front ++ rest) = some rest :=
    fun _ _ => List.isPrefixOf?_eq_some_iff_append_eq.2 rfl
  have hback : ∀ front rest : List Char, rest.isSuffixOf? (front ++ rest) = some front :=
    fun _ _ => List.isSuffixOf?_eq_some_iff_append_eq.2 rfl
  simp only [nameInPlaceholder?, toList_placeholder, hfront, hback, Option.bind_eq_bind,
    Option.bind_some, hname, Bool.false_eq_true, if_false, String.ofList_toList]

/-- The two kinds of placeholder part where one has an underscore and the other an `S`. -/
theorem nameInPlaceholder?_single_multiple (name : String) :
    nameInPlaceholder? .single (placeholder name .multiple) = none := by
  rw [nameInPlaceholder?, toList_placeholder]
  rfl

theorem ofPlaceholder?_placeholder {name : String} (h : name ≠ "") (kind : MetavariableKind) :
    ofPlaceholder? (placeholder name kind) = some (name, kind) := by
  cases kind with
  | single => rw [ofPlaceholder?, nameInPlaceholder?_placeholder h]; rfl
  | multiple =>
    rw [ofPlaceholder?, nameInPlaceholder?_single_multiple, nameInPlaceholder?_placeholder h]
    rfl

/-! ## What a template becomes -/

/-- The number of dollar signs in front of a name. -/
def MetavariableKind.dollars : MetavariableKind → Nat
  | single => 1
  | multiple => 3

/-- The kind that one dollar sign announces, or else several. -/
def MetavariableKind.announced (dollars : Nat) : MetavariableKind :=
  if dollars = 1 then single else multiple

theorem MetavariableKind.ofDollars?_eq (dollars : Nat) :
    ofDollars? dollars = if dollars = 1 ∨ dollars = 3 then some (announced dollars) else none := by
  unfold ofDollars?
  split
  · rfl
  · rfl
  · rename_i h₁ h₃
    rw [if_neg (not_or.2 ⟨h₁, h₃⟩)]

/-- What stands for a segment in code: a placeholder for a metavariable. -/
def Segment.inCode : Segment → List Char
  | char c => [c]
  | reference dollars name => (placeholder name (.announced dollars)).toList

def byteSize (cs : List Char) : Nat :=
  (String.ofList cs).utf8ByteSize

theorem byteSize_append (cs more : List Char) :
    byteSize (cs ++ more) = byteSize cs + byteSize more := by
  rw [byteSize, String.ofList_append, String.utf8ByteSize_append]
  rfl

theorem byteSize_text_char (c : Char) : byteSize (Segment.char c).text = c.utf8Size := by
  rw [Segment.text, byteSize, ← String.singleton_eq_ofList, String.utf8ByteSize_singleton]

theorem byteSize_text_reference (dollars : Nat) (name : String) :
    byteSize (Segment.reference dollars name).text = dollars + name.utf8ByteSize := by
  rw [Segment.text, byteSize_append]
  congr 1
  · induction dollars with
    | zero => rfl
    | succ n ih =>
      rw [List.replicate_succ, ← List.singleton_append, byteSize_append, ih, Nat.add_comm]
      rfl
  · rw [byteSize, String.ofList_toList]

/-- The metavariables among segments, the first of which begins at the byte offset. -/
def metavariablesFrom (offset : Nat) : List Segment → List Metavariable
  | [] => []
  | .char c :: rest => metavariablesFrom (offset + c.utf8Size) rest
  | .reference dollars name :: rest =>
    ⟨name, .announced dollars, offset⟩ :: metavariablesFrom (offset + dollars + name.utf8ByteSize) rest

/-- Each of the references has one dollar sign or three, and a name. -/
def ReferWell (segments : List Segment) : Prop :=
  ∀ dollars name, .reference dollars name ∈ segments → (dollars = 1 ∨ dollars = 3) ∧ name ≠ ""

theorem referWell_cons_char_iff {c : Char} {rest : List Segment} :
    ReferWell (.char c :: rest) ↔ ReferWell rest := by
  simp [ReferWell]

theorem referWell_cons_reference_iff {dollars : Nat} {name : String} {rest : List Segment} :
    ReferWell (.reference dollars name :: rest) ↔
      ((dollars = 1 ∨ dollars = 3) ∧ name ≠ "") ∧ ReferWell rest := by
  simp only [ReferWell, List.mem_cons, Segment.reference.injEq]
  constructor
  · intro h
    exact ⟨h dollars name (.inl ⟨rfl, rfl⟩), fun d n hmem => h d n (.inr hmem)⟩
  · rintro ⟨hfirst, hrest⟩ d n (⟨rfl, rfl⟩ | hmem)
    · exact hfirst
    · exact hrest d n hmem

theorem placeholdersFrom_eq_ok_iff {offset : Nat} {segments : List Segment} {text : List Char}
    {found : List Metavariable} :
    placeholdersFrom offset segments = .ok (text, found) ↔
      ReferWell segments ∧ text = segments.flatMap Segment.inCode ∧
        found = metavariablesFrom offset segments := by
  induction segments generalizing offset text found with
  | nil =>
    rw [placeholdersFrom, Except.ok.injEq, Prod.mk.injEq, eq_comm (a := []), eq_comm (a := [])]
    simp [ReferWell, metavariablesFrom]
  | cons s rest ih =>
    cases s with
    | char c =>
      rw [placeholdersFrom, bind_eq_ok_iff, referWell_cons_char_iff]
      constructor
      · rintro ⟨⟨text', found'⟩, hrest, h⟩
        cases h
        obtain ⟨hrefer, rfl, rfl⟩ := ih.1 hrest
        exact ⟨hrefer, rfl, rfl⟩
      · rintro ⟨hrefer, rfl, rfl⟩
        exact ⟨_, ih.2 ⟨hrefer, rfl, rfl⟩, rfl⟩
    | reference dollars name =>
      rw [placeholdersFrom, referWell_cons_reference_iff, MetavariableKind.ofDollars?_eq]
      by_cases hdollars : dollars = 1 ∨ dollars = 3
      · by_cases hname : name = ""
        · simp [hdollars, hname]
        · rw [if_pos hdollars]
          dsimp only
          rw [if_neg (by simpa using hname), bind_eq_ok_iff]
          constructor
          · rintro ⟨⟨text', found'⟩, hrest, h⟩
            cases h
            obtain ⟨hrefer, rfl, rfl⟩ := ih.1 hrest
            exact ⟨⟨⟨hdollars, hname⟩, hrefer⟩, rfl, rfl⟩
          · rintro ⟨⟨-, hrefer⟩, rfl, rfl⟩
            exact ⟨_, ih.2 ⟨hrefer, rfl, rfl⟩, rfl⟩
      · simp [hdollars]

/-! ## The metavariables of a text -/

theorem le_offset_of_mem_metavariablesFrom {offset : Nat} {segments : List Segment}
    {m : Metavariable} (h : m ∈ metavariablesFrom offset segments) : offset ≤ m.offset := by
  induction segments generalizing offset with
  | nil => cases h
  | cons s rest ih =>
    cases s with
    | char c => exact Nat.le_trans (Nat.le_add_right _ _) (ih h)
    | reference dollars name =>
      rcases List.mem_cons.1 h with rfl | h
      · exact Nat.le_refl offset
      · have hle := ih h
        omega

theorem pairwise_metavariablesFrom {offset : Nat} {segments : List Segment}
    (h : ReferWell segments) : (metavariablesFrom offset segments).Pairwise (·.offset < ·.offset) := by
  induction segments generalizing offset with
  | nil => exact .nil
  | cons s rest ih =>
    cases s with
    | char c => exact ih (referWell_cons_char_iff.1 h)
    | reference dollars name =>
      obtain ⟨⟨hdollars, -⟩, hrest⟩ := referWell_cons_reference_iff.1 h
      refine List.pairwise_cons.2 ⟨?_, ih hrest⟩
      intro m hm
      have hle := le_offset_of_mem_metavariablesFrom hm
      show offset < m.offset
      omega

/-- A metavariable is listed with the number of bytes before it. -/
theorem mem_metavariablesFrom_iff {offset : Nat} {segments : List Segment} {m : Metavariable} :
    m ∈ metavariablesFrom offset segments ↔
      ∃ done dollars name rest, segments = done ++ .reference dollars name :: rest ∧
        m = ⟨name, .announced dollars, offset + byteSize (done.flatMap Segment.text)⟩ := by
  induction segments generalizing offset with
  | nil => simp [metavariablesFrom]
  | cons s more ih =>
    have hsplit : (∃ done dollars name rest, s :: more = done ++ .reference dollars name :: rest ∧
          m = ⟨name, .announced dollars, offset + byteSize (done.flatMap Segment.text)⟩) ↔
        (∃ dollars name, s = .reference dollars name ∧ m = ⟨name, .announced dollars, offset⟩) ∨
        ∃ done dollars name rest, more = done ++ .reference dollars name :: rest ∧
          m = ⟨name, .announced dollars,
            offset + byteSize s.text + byteSize (done.flatMap Segment.text)⟩ := by
      constructor
      · rintro ⟨done, dollars, name, rest, happend, rfl⟩
        rcases List.cons_eq_append_iff.1 happend with ⟨rfl, hcons⟩ | ⟨done, rfl, rfl⟩
        · cases hcons
          exact .inl ⟨dollars, name, rfl, rfl⟩
        · refine .inr ⟨done, dollars, name, rest, rfl, ?_⟩
          rw [List.flatMap_cons, byteSize_append, Nat.add_assoc]
      · rintro (⟨dollars, name, rfl, rfl⟩ | ⟨done, dollars, name, rest, rfl, rfl⟩)
        · exact ⟨[], dollars, name, more, rfl, rfl⟩
        · refine ⟨s :: done, dollars, name, rest, rfl, ?_⟩
          rw [List.flatMap_cons, byteSize_append, Nat.add_assoc]
    rw [hsplit]
    cases s with
    | char c =>
      rw [metavariablesFrom, ih, byteSize_text_char]
      simp
    | reference dollars name =>
      rw [metavariablesFrom, List.mem_cons, ih, byteSize_text_reference, ← Nat.add_assoc]
      simp

/-! ## Well written templates -/

/-- Dollar signs stand alone or in threes and in front of a name, and no name of a run occurs again.
The wildcard is no such name. -/
structure WellWritten (cs : List Char) : Prop where
  runs : ∀ before dollars after, IsRun cs before dollars after →
    (dollars = 1 ∨ dollars = 3) ∧ ∃ c ∈ after.head?, BeginsName c
  once : ∀ before name after, IsNamed cs before 3 name after → name ≠ wildcard.toList →
    ∀ before' dollars after', IsNamed cs before' dollars name after' → before' = before

theorem referWell_ofText_iff {cs : List Char} :
    ReferWell (Segment.ofText cs) ↔ ∀ before dollars after, IsRun cs before dollars after →
      (dollars = 1 ∨ dollars = 3) ∧ ∃ c ∈ after.head?, BeginsName c := by
  constructor
  · intro h before dollars after hrun
    have hmem := Segment.ofText_of_isRun hrun
    obtain ⟨hdollars, hname⟩ := h dollars (String.ofList (nameAt after)) (by rw [hmem]; simp)
    refine ⟨hdollars, ?_⟩
    by_contra hnone
    refine hname ?_
    rw [nameAt_eq_nil fun c hc hbegins => hnone ⟨c, hc, hbegins⟩]
  · intro h dollars name hmem
    obtain ⟨done, rest, hsplit⟩ := List.append_of_mem hmem
    have hrun := Segment.isRun_of_ofText hsplit
    obtain ⟨hdollars, c, hc, hbegins⟩ := h _ _ _ hrun
    refine ⟨hdollars, ?_⟩
    rintro rfl
    cases (hsplit ▸ Segment.splits_ofText cs).longest done _ rest rfl with
    | bare hpos hafter => exact (hafter c hc).2 hbegins
    | named hpos hname hafter => exact hname.ne_nil rfl

/-- Of two beginnings of a text the one with as many bytes is the same. -/
theorem eq_of_byteSize_eq {cs before before' : List Char} (h : before <+: cs) (h' : before' <+: cs)
    (hsize : byteSize before = byteSize before') : before = before' := by
  have hextends : ∀ {front back : List Char}, front <+: back → byteSize front = byteSize back →
      front = back := by
    rintro front _ ⟨more, rfl⟩ hsize
    rw [byteSize_append, Nat.left_eq_add, byteSize, String.utf8ByteSize_eq_zero_iff,
      String.ofList_eq_empty_iff] at hsize
    rw [hsize, List.append_nil]
  rcases List.prefix_or_prefix_of_prefix h h' with hbefore | hbefore
  · exact hextends hbefore hsize
  · exact (hextends hbefore hsize.symm).symm

theorem IsRun.prefix {cs before after : List Char} {dollars : Nat} (h : IsRun cs before dollars after) :
    before <+: cs :=
  ⟨_, h.text_eq.symm⟩

theorem MetavariableKind.announced_dollars (kind : MetavariableKind) :
    announced kind.dollars = kind := by
  cases kind <;> rfl

theorem MetavariableKind.dollars_announced {dollars : Nat} (h : dollars = 1 ∨ dollars = 3) :
    (announced dollars).dollars = dollars := by
  rcases h with rfl | rfl <;> rfl

/-- The metavariables listed are the names behind dollar signs. -/
theorem mem_metavariables_iff {cs : List Char} (h : ReferWell (Segment.ofText cs))
    {m : Metavariable} : m ∈ metavariablesFrom 0 (Segment.ofText cs) ↔
      ∃ before after, IsNamed cs before m.kind.dollars m.name.toList after ∧
        m.offset = byteSize before := by
  rw [mem_metavariablesFrom_iff]
  constructor
  · rintro ⟨done, dollars, name, rest, hsplit, rfl⟩
    obtain ⟨hdollars, hname⟩ := h dollars name (hsplit ▸ List.mem_append_right _ List.mem_cons_self)
    have hnamed := Segment.isNamed_of_ofText hsplit hname
    rw [← MetavariableKind.dollars_announced hdollars] at hnamed
    exact ⟨_, _, hnamed, Nat.zero_add _⟩
  · rintro ⟨before, after, hnamed, hoffset⟩
    refine ⟨_, _, _, _, Segment.ofText_of_isNamed hnamed, ?_⟩
    rw [Segment.flatMap_text_ofText, Nat.zero_add, String.ofList_toList,
      MetavariableKind.announced_dollars, ← hoffset]

/-- No run's name is listed more than once. -/
theorem repeatedRun?_eq_none_iff {found : List Metavariable} :
    repeatedRun? found = none ↔ ∀ m ∈ found, m.kind = .multiple → m.name ≠ wildcard →
      found.countP (·.name == m.name) ≤ 1 := by
  have hcount : ∀ m : Metavariable, m.name ≠ wildcard →
      (found.filter fun m => !m.isWildcard).countP (·.name == m.name) =
        found.countP (·.name == m.name) := by
    intro m hname
    rw [List.countP_filter]
    refine List.countP_congr fun other _ => ?_
    rw [Bool.and_eq_true, Bool.not_eq_true', Metavariable.isWildcard, beq_eq_false_iff_ne]
    refine and_iff_left_of_imp fun hsame => ?_
    rwa [beq_iff_eq.1 hsame]
  rw [repeatedRun?, List.head?_eq_none_iff, ← List.length_eq_zero_iff, List.length_mergeSort,
    List.length_map, List.length_eq_zero_iff, List.filter_eq_nil_iff]
  constructor
  · intro h m hm hkind hname
    have hnamed : m ∈ found.filter fun m => !m.isWildcard :=
      List.mem_filter.2 ⟨hm, by simpa [Metavariable.isWildcard] using hname⟩
    rw [← hcount m hname]
    simpa [hkind] using h m hnamed
  · intro h m hm hrepeated
    obtain ⟨hm, hname⟩ := List.mem_filter.1 hm
    have hname : m.name ≠ wildcard := by
      simpa [Metavariable.isWildcard] using hname
    rw [Bool.and_eq_true, decide_eq_true_eq, decide_eq_true_eq, hcount m hname] at hrepeated
    exact Nat.not_lt.2 (h m hm hrepeated.1 hname) hrepeated.2

/-- Among metavariables of which none is listed twice, one is the only one of its name when the name
is listed once. -/
theorem countP_name_le_one_iff {found : List Metavariable} (h : found.Nodup) {m : Metavariable}
    (hm : m ∈ found) :
    found.countP (·.name == m.name) ≤ 1 ↔ ∀ other ∈ found, other.name = m.name → other = m := by
  rw [List.countP_eq_length_filter]
  constructor
  · intro hone other hother hname
    have hmem : m ∈ found.filter (·.name == m.name) := List.mem_filter.2 ⟨hm, beq_self_eq_true _⟩
    have hmem' : other ∈ found.filter (·.name == m.name) :=
      List.mem_filter.2 ⟨hother, beq_iff_eq.2 hname⟩
    have hlength := Nat.le_antisymm hone (List.length_pos_of_mem hmem)
    obtain ⟨only, honly⟩ := List.length_eq_one_iff.1 hlength
    rw [honly, List.mem_singleton] at hmem hmem'
    exact hmem'.trans hmem.symm
  · intro hall
    have hsame : ∀ other ∈ found.filter (·.name == m.name), other = m := by
      intro other hother
      obtain ⟨hother, hname⟩ := List.mem_filter.1 hother
      exact hall other hother (beq_iff_eq.1 hname)
    have hnodup := h.filter (·.name == m.name)
    rw [List.eq_replicate_of_mem hsame] at hnodup
    exact List.nodup_replicate.1 hnodup

theorem withPlaceholders_eq_ok_iff {source text : String} {found : List Metavariable} :
    withPlaceholders source = .ok (text, found) ↔
      ReferWell (Segment.ofText source.toList) ∧
      text = String.ofList ((Segment.ofText source.toList).flatMap Segment.inCode) ∧
      found = metavariablesFrom 0 (Segment.ofText source.toList) ∧ repeatedRun? found = none := by
  rw [withPlaceholders, bind_eq_ok_iff]
  constructor
  · rintro ⟨⟨cs, found'⟩, hplaceholders, h⟩
    obtain ⟨hrefer, rfl, rfl⟩ := placeholdersFrom_eq_ok_iff.1 hplaceholders
    dsimp only at h
    split at h
    · cases h
    · rename_i hnone
      cases h
      exact ⟨hrefer, rfl, rfl, hnone⟩
  · rintro ⟨hrefer, rfl, rfl, hnone⟩
    refine ⟨_, placeholdersFrom_eq_ok_iff.2 ⟨hrefer, rfl, rfl⟩, ?_⟩
    dsimp only
    rw [hnone]

/-- No run's name is listed again when none occurs again in the text. -/
theorem repeatedRun?_metavariables_iff {cs : List Char} (h : ReferWell (Segment.ofText cs)) :
    repeatedRun? (metavariablesFrom 0 (Segment.ofText cs)) = none ↔
      ∀ before name after, IsNamed cs before 3 name after → name ≠ wildcard.toList →
        ∀ before' dollars after', IsNamed cs before' dollars name after' → before' = before := by
  have hoffsets : ((metavariablesFrom 0 (Segment.ofText cs)).map (·.offset)).Nodup :=
    List.pairwise_map.2 ((pairwise_metavariablesFrom h).imp Nat.ne_of_lt)
  rw [repeatedRun?_eq_none_iff]
  constructor
  · intro hone before name after hnamed hname before' dollars after' hnamed'
    have hmem : ⟨String.ofList name, .multiple, byteSize before⟩ ∈
        metavariablesFrom 0 (Segment.ofText cs) := by
      refine (mem_metavariables_iff h).2 ⟨before, after, ?_, rfl⟩
      rwa [String.toList_ofList]
    have hmem' : ⟨String.ofList name, .announced dollars, byteSize before'⟩ ∈
        metavariablesFrom 0 (Segment.ofText cs) := by
      refine (mem_metavariables_iff h).2 ⟨before', after', ?_, rfl⟩
      have hdollars := (referWell_ofText_iff.1 h _ _ _ hnamed'.toIsRun).1
      rwa [String.toList_ofList, MetavariableKind.dollars_announced hdollars]
    have hwild : String.ofList name ≠ wildcard := by
      intro hwild
      exact hname (by rw [← hwild, String.toList_ofList])
    have heq := (countP_name_le_one_iff hoffsets.of_map hmem).1 (hone _ hmem rfl hwild) _ hmem' rfl
    exact eq_of_byteSize_eq hnamed'.prefix hnamed.prefix (congrArg Metavariable.offset heq)
  · intro hone m hm hkind hname
    refine (countP_name_le_one_iff hoffsets.of_map hm).2 fun other hother hsame => ?_
    obtain ⟨before, after, hnamed, hoffset⟩ := (mem_metavariables_iff h).1 hm
    obtain ⟨before', after', hnamed', hoffset'⟩ := (mem_metavariables_iff h).1 hother
    rw [hkind] at hnamed
    rw [hsame] at hnamed'
    obtain rfl := hone before _ after hnamed (mt String.toList_inj.1 hname) before' _ after' hnamed'
    exact List.inj_on_of_nodup_map hoffsets hother hm (hoffset'.trans hoffset.symm)

/-- The code for a template and its metavariables. The segments of the template, each as long as it
can be, stand in the code one after the other, metavariables as placeholders. The names behind
dollar signs are listed in the order of the text, each with the byte offset of its first dollar
sign. -/
structure IsCodeFor (source text : String) (found : List Metavariable) : Prop where
  text_eq : ∃ segments, Segment.Splits segments source.toList ∧
    text.toList = segments.flatMap Segment.inCode
  mem_iff : ∀ m, m ∈ found ↔ ∃ before after,
    IsNamed source.toList before m.kind.dollars m.name.toList after ∧ m.offset = byteSize before
  inOrder : found.Pairwise (·.offset < ·.offset)
  boundary : ∀ m ∈ found, Text.IsBoundary source m.offset
  decoded : ∀ m ∈ found, ofPlaceholder? (placeholder m.name m.kind) = some (m.name, m.kind)

/-- **The scanner of templates.** A template can be put into code when it is well written, and not
otherwise. Then every metavariable gives way to its placeholder and all else is kept in order; the
metavariables are listed in order, each with the byte offset of its first dollar sign; and each
placeholder tells the name and the kind of its metavariable. -/
theorem withPlaceholders_accepts (source : String) :
    ((∃ text found, withPlaceholders source = .ok (text, found)) ↔ WellWritten source.toList) ∧
      ∀ text found, withPlaceholders source = .ok (text, found) → IsCodeFor source text found := by
  constructor
  · constructor
    · rintro ⟨text, found, h⟩
      obtain ⟨hrefer, -, rfl, hnone⟩ := withPlaceholders_eq_ok_iff.1 h
      exact ⟨referWell_ofText_iff.1 hrefer, (repeatedRun?_metavariables_iff hrefer).1 hnone⟩
    · intro h
      have hrefer := referWell_ofText_iff.2 h.runs
      have hnone := (repeatedRun?_metavariables_iff hrefer).2 h.once
      exact ⟨_, _, withPlaceholders_eq_ok_iff.2 ⟨hrefer, rfl, rfl, hnone⟩⟩
  · intro text found h
    obtain ⟨hrefer, rfl, rfl, -⟩ := withPlaceholders_eq_ok_iff.1 h
    refine ⟨?_, fun m => mem_metavariables_iff hrefer, pairwise_metavariablesFrom hrefer, ?_, ?_⟩
    · exact ⟨_, Segment.splits_ofText source.toList, String.toList_ofList⟩
    · intro m hm
      obtain ⟨before, after, hnamed, hoffset⟩ := (mem_metavariables_iff hrefer).1 hm
      obtain ⟨more, hmore⟩ := hnamed.prefix
      refine ⟨String.ofList before, String.ofList more, ?_, hoffset⟩
      rw [← String.ofList_append, hmore, String.ofList_toList]
    · intro m hm
      obtain ⟨before, after, hnamed, -⟩ := (mem_metavariables_iff hrefer).1 hm
      refine ofPlaceholder?_placeholder ?_ m.kind
      exact mt String.toList_eq_nil_iff.2 hnamed.isName.ne_nil

/-- Names can begin and end with underscores, and characters can have more than one byte. -/
theorem withPlaceholders_accented :
    let source := "é($_A_, $$$B_)"
    let code := "é(__HEDDLE_METAVAR__A___, __HEDDLE_METAVARS_B___)"
    let found : List Metavariable := [⟨"_A_", .single, 3⟩, ⟨"B_", .multiple, 9⟩]
    withPlaceholders source = .ok (code, found) ∧ WellWritten source.toList ∧
      IsCodeFor source code found := by
  intro source code found
  have hcode : withPlaceholders source = .ok (code, found) := by decide +kernel
  obtain ⟨hwritten, hfound⟩ := withPlaceholders_accepts source
  exact ⟨hcode, hwritten.1 ⟨code, found, hcode⟩, hfound code found hcode⟩

end StructuralSearch.Template
