import Mathlib.Data.List.Basic
import StructuralSearch.Proofs.Text.Lines
import StructuralSearch.Template.Segment

/-!
# Texts split into segments

A text splits in one way into characters that are no dollar signs and segments that are as long as
they can be: dollar signs that stand together, with the longest name after them. Reading gives this
split. So the runs of dollar signs in a text, each a run that no further dollar sign touches, are
those of its segments.
-/
namespace StructuralSearch.Template

/-- A letter `A` to `Z` or an underscore. -/
def BeginsName (c : Char) : Prop :=
  ('A' ≤ c ∧ c ≤ 'Z') ∨ c = '_'

/-- A letter `A` to `Z`, an underscore or a digit. -/
def ContinuesName (c : Char) : Prop :=
  BeginsName c ∨ ('0' ≤ c ∧ c ≤ '9')

def IsName (name : List Char) : Prop :=
  ∃ c rest, name = c :: rest ∧ BeginsName c ∧ ∀ d ∈ rest, ContinuesName d

theorem isUpper_iff {c : Char} : c.isUpper ↔ 'A' ≤ c ∧ c ≤ 'Z' :=
  decide_eq_true_iff

theorem isDigit_iff {c : Char} : c.isDigit ↔ '0' ≤ c ∧ c ≤ '9' :=
  Bool.and_eq_true_iff.trans (and_congr decide_eq_true_iff decide_eq_true_iff)

theorem isNameStart_iff {c : Char} : isNameStart c ↔ BeginsName c := by
  rw [isNameStart, Bool.or_eq_true, isUpper_iff, beq_iff_eq, BeginsName]

theorem isNameRest_iff {c : Char} : isNameRest c ↔ ContinuesName c := by
  rw [isNameRest, Bool.or_eq_true, Bool.or_eq_true, isUpper_iff, isDigit_iff, beq_iff_eq,
    or_right_comm]
  rfl

theorem ContinuesName.ne_dollar {c : Char} (h : ContinuesName c) : c ≠ '$' := by
  rintro rfl
  revert h
  simp [ContinuesName, BeginsName, Char.le_def]

theorem IsName.continues {name : List Char} (h : IsName name) : ∀ c ∈ name, ContinuesName c := by
  obtain ⟨c, rest, rfl, hc, hrest⟩ := h
  exact List.forall_mem_cons.2 ⟨.inl hc, hrest⟩

theorem IsName.ne_nil {name : List Char} (h : IsName name) : name ≠ [] := by
  obtain ⟨c, rest, rfl, -, -⟩ := h
  exact List.cons_ne_nil c rest

/-- The longest name at the beginning is the one that the rest does not go on with. -/
theorem nameAt_append {name after : List Char} (h : IsName name)
    (hafter : ∀ c ∈ after.head?, ¬ContinuesName c) : nameAt (name ++ after) = name := by
  obtain ⟨c, rest, rfl, hc, hrest⟩ := h
  rw [List.cons_append, nameAt, if_pos (isNameStart_iff.2 hc)]
  refine congrArg (c :: ·) (Text.takeWhile_append_of_head? ?_ ?_)
  · exact fun d hd => isNameRest_iff.2 (hrest d hd)
  · exact fun d hd hname => hafter d hd (isNameRest_iff.1 hname)

theorem nameAt_eq_nil {after : List Char} (h : ∀ c ∈ after.head?, ¬BeginsName c) :
    nameAt after = [] := by
  cases after with
  | nil => rfl
  | cons c rest => rw [nameAt, if_neg fun hc => h c rfl (isNameStart_iff.1 hc)]

namespace Segment

/-- The segment is as long as it can be in front of the rest of a text: a character that is no
dollar sign; dollar signs before neither a dollar sign nor a name; or dollar signs and a name before
nothing that could go on with the name. -/
inductive IsLongest : Segment → List Char → Prop
  | char {c : Char} {after : List Char} (h : c ≠ '$') : IsLongest (.char c) after
  | bare {dollars : Nat} {after : List Char} (hdollars : 0 < dollars)
      (hafter : ∀ c ∈ after.head?, c ≠ '$' ∧ ¬BeginsName c) :
      IsLongest (.reference dollars "") after
  | named {dollars : Nat} {name : String} {after : List Char} (hdollars : 0 < dollars)
      (hname : IsName name.toList) (hafter : ∀ c ∈ after.head?, ¬ContinuesName c) :
      IsLongest (.reference dollars name) after

/-- The segments are the text, and each is as long as it can be in front of those after it. -/
structure Splits (segments : List Segment) (cs : List Char) : Prop where
  text_eq : segments.flatMap text = cs
  longest : ∀ done s rest, segments = done ++ s :: rest → s.IsLongest (rest.flatMap text)

theorem IsLongest.text_ne_nil {s : Segment} {after : List Char} (h : s.IsLongest after) :
    s.text ≠ [] := by
  cases h with
  | char h => exact List.cons_ne_nil _ _
  | bare hdollars hafter => simp [text, Nat.ne_of_gt hdollars]
  | named hdollars hname hafter => simp [text, Nat.ne_of_gt hdollars]

theorem splits_nil : Splits [] [] where
  text_eq := rfl
  longest _ _ _ h := absurd h.symm (List.append_ne_nil_of_right_ne_nil _ (List.cons_ne_nil _ _))

theorem splits_cons_iff {s : Segment} {rest : List Segment} {cs : List Char} :
    Splits (s :: rest) cs ↔ cs = s.text ++ rest.flatMap text ∧ s.IsLongest (rest.flatMap text) ∧
      Splits rest (rest.flatMap text) := by
  constructor
  · rintro ⟨rfl, hlongest⟩
    refine ⟨rfl, hlongest [] s rest rfl, rfl, ?_⟩
    intro done other later h
    exact hlongest (s :: done) other later (congrArg (s :: ·) h)
  · rintro ⟨rfl, hs, -, hrest⟩
    refine ⟨rfl, ?_⟩
    intro done other later h
    rcases List.cons_eq_append_iff.1 h with ⟨rfl, hcons⟩ | ⟨done, rfl, happend⟩
    · cases hcons
      exact hs
    · exact hrest done other later happend

/-! ## Reading gives the split -/

theorem ofText_char {c : Char} (h : c ≠ '$') (rest : List Char) :
    ofText (c :: rest) = char c :: ofText rest := by
  rw [ofText, if_neg h]

/-- Dollar signs before a text that begins with none take the longest name there. -/
theorem ofText_dollars {dollars : Nat} {after : List Char} (hdollars : 0 < dollars)
    (hafter : ∀ c ∈ after.head?, c ≠ '$') :
    ofText (List.replicate dollars '$' ++ after) =
      reference dollars (String.ofList (nameAt after)) ::
        ofText (after.drop (nameAt after).length) := by
  obtain ⟨more, rfl⟩ := Nat.exists_eq_add_of_lt hdollars
  have hrun : (List.replicate more '$' ++ after).takeWhile (· = '$') = List.replicate more '$' := by
    refine Text.takeWhile_append_of_head? ?_ ?_
    · exact fun c hc => decide_eq_true (List.eq_of_mem_replicate hc)
    · exact fun c hc hdollar => hafter c hc (of_decide_eq_true hdollar)
  rw [Nat.zero_add, List.replicate_succ, List.cons_append, ofText, if_pos rfl, hrun]
  dsimp only
  rw [List.drop_left, List.length_replicate, Nat.add_comm 1 more]

theorem ofText_append {s : Segment} {after : List Char} (h : s.IsLongest after) :
    ofText (s.text ++ after) = s :: ofText after := by
  cases h with
  | char h => exact ofText_char h after
  | @bare dollars after hdollars hafter =>
    have hname : nameAt after = [] := nameAt_eq_nil fun c hc => (hafter c hc).2
    rw [text, String.toList_empty, List.append_nil,
      ofText_dollars hdollars fun c hc => (hafter c hc).1, hname]
    rfl
  | @named dollars name after hdollars hname hafter =>
    have hstart : ∀ c ∈ (name.toList ++ after).head?, c ≠ '$' := by
      obtain ⟨c, rest, hcons, hc, -⟩ := hname
      rw [hcons]
      rintro d ⟨⟩
      exact ContinuesName.ne_dollar (.inl hc)
    rw [text, List.append_assoc, ofText_dollars hdollars hstart, nameAt_append hname hafter,
      String.ofList_toList, List.drop_left]

/-- A text begins with as many characters of a class as it can. -/
theorem exists_longest_front (p : Char → Bool) (cs : List Char) :
    ∃ front after, cs = front ++ after ∧ (∀ c ∈ front, p c) ∧ ∀ c ∈ after.head?, ¬p c := by
  refine ⟨cs.takeWhile p, cs.dropWhile p, List.takeWhile_append_dropWhile.symm, ?_, ?_⟩
  · exact fun c hc => List.all_eq_true.1 List.all_takeWhile c hc
  · intro c hc
    have hnot := List.head?_dropWhile_not p cs
    rw [Option.mem_def.1 hc] at hnot
    simpa using hnot

theorem exists_isLongest (c : Char) (rest : List Char) :
    ∃ (s : Segment) (after : List Char), c :: rest = s.text ++ after ∧ s.IsLongest after := by
  by_cases hc : c = '$'
  · subst hc
    obtain ⟨more, after, rfl, hmore, hafter⟩ := exists_longest_front (· = '$') rest
    have hrun : '$' :: more = List.replicate (more.length + 1) '$' := by
      refine congrArg ('$' :: ·) (List.eq_replicate_iff.2 ⟨rfl, ?_⟩)
      exact fun d hd => of_decide_eq_true (hmore d hd)
    rw [← List.cons_append, hrun]
    by_cases hname : ∃ d ∈ after.head?, BeginsName d
    · obtain ⟨d, hd, hbegins⟩ := hname
      obtain ⟨later, rfl⟩ := List.head?_eq_some_iff.1 hd
      obtain ⟨name, after, rfl, hname, hend⟩ := exists_longest_front isNameRest later
      refine ⟨.reference (more.length + 1) (String.ofList (d :: name)), after, ?_, .named ?_ ?_ ?_⟩
      · simp [text]
      · exact Nat.succ_pos _
      · rw [String.toList_ofList]
        exact ⟨d, name, rfl, hbegins, fun c hc => isNameRest_iff.1 (hname c hc)⟩
      · exact fun c hc hcontinues => hend c hc (isNameRest_iff.2 hcontinues)
    · refine ⟨.reference (more.length + 1) "", after, ?_, .bare (Nat.succ_pos _) ?_⟩
      · simp [text]
      · intro d hd
        exact ⟨fun hdollar => hafter d hd (decide_eq_true hdollar), fun hbegins => hname ⟨d, hd, hbegins⟩⟩
  · exact ⟨.char c, rest, rfl, .char hc⟩

theorem splits_ofText (cs : List Char) : Splits (ofText cs) cs := by
  induction hlength : cs.length using Nat.strongRecOn generalizing cs with
  | ind n ih =>
    cases cs with
    | nil =>
      rw [ofText]
      exact splits_nil
    | cons c rest =>
      obtain ⟨s, after, hsplit, hs⟩ := exists_isLongest c rest
      rw [hsplit] at hlength ⊢
      have hshorter : after.length < n := by
        have hpos := List.length_pos_iff.2 hs.text_ne_nil
        rw [← hlength, List.length_append]
        omega
      have hafter := ih after.length hshorter after rfl
      rw [ofText_append hs, splits_cons_iff, hafter.text_eq]
      exact ⟨rfl, hs, hafter⟩

/-- A text splits in one way, which is how it is read. -/
theorem splits_iff {segments : List Segment} {cs : List Char} :
    Splits segments cs ↔ segments = ofText cs := by
  constructor
  · intro h
    induction segments generalizing cs with
    | nil =>
      rw [← h.text_eq, List.flatMap_nil, ofText]
    | cons s rest ih =>
      obtain ⟨rfl, hs, hrest⟩ := splits_cons_iff.1 h
      rw [ofText_append hs, ← ih hrest]
  · rintro rfl
    exact splits_ofText cs

end Segment

/-! ## Dollar signs in a text -/

/-- Dollar signs that stand together in the text, with no other one before or after them. -/
structure IsRun (cs before : List Char) (dollars : Nat) (after : List Char) : Prop where
  text_eq : cs = before ++ (List.replicate dollars '$' ++ after)
  pos : 0 < dollars
  start : ∀ c ∈ before.getLast?, c ≠ '$'
  stop : ∀ c ∈ after.head?, c ≠ '$'

/-- A run of dollar signs with a name behind it that is as long as it can be. -/
structure IsNamed (cs before : List Char) (dollars : Nat) (name after : List Char) : Prop extends
    IsRun cs before dollars (name ++ after) where
  isName : IsName name
  longest : ∀ c ∈ after.head?, ¬ContinuesName c

namespace Segment

theorem getLast?_text_reference_empty {dollars : Nat} (h : 0 < dollars) :
    (reference dollars "").text.getLast? = some '$' := by
  simp [text, List.getLast?_replicate, Nat.ne_of_gt h]

theorem getLast?_text_reference {dollars : Nat} {name : String} (h : IsName name.toList) :
    ∀ c ∈ (reference dollars name).text.getLast?, c ≠ '$' := by
  intro c hc
  rw [text, List.getLast?_append_of_ne_nil _ h.ne_nil] at hc
  exact (h.continues c (List.mem_of_getLast? hc)).ne_dollar

/-- A segment in front of a dollar sign does not end in one. -/
theorem IsLongest.getLast?_ne_dollar {s : Segment} {more : List Char}
    (h : s.IsLongest ('$' :: more)) : ∀ c ∈ s.text.getLast?, c ≠ '$' := by
  cases h with
  | char h =>
    rintro _ ⟨⟩
    exact h
  | bare hdollars hafter => exact absurd rfl (hafter '$' rfl).1
  | named hdollars hname hafter => exact getLast?_text_reference hname

theorem IsLongest.append_dollar {s : Segment} {after : List Char} (h : s.IsLongest after)
    (hlast : ∀ c ∈ (s.text ++ after).getLast?, c ≠ '$') (more : List Char) :
    s.IsLongest (after ++ '$' :: more) := by
  cases after with
  | cons c rest =>
    cases h with
    | char h => exact .char h
    | bare hdollars hafter => exact .bare hdollars hafter
    | named hdollars hname hafter => exact .named hdollars hname hafter
  | nil =>
    rw [List.append_nil] at hlast
    cases h with
    | char h => exact .char h
    | bare hdollars hafter =>
      exact absurd rfl (hlast '$' (getLast?_text_reference_empty hdollars))
    | named hdollars hname hafter =>
      refine .named hdollars hname ?_
      rintro _ ⟨⟩ hdollar
      exact hdollar.ne_dollar rfl

/-- What stands before a run is read as if the text ended there. -/
theorem ofText_append_dollar {before : List Char} (h : ∀ c ∈ before.getLast?, c ≠ '$')
    (more : List Char) : ofText (before ++ '$' :: more) = ofText before ++ ofText ('$' :: more) := by
  have hsplits := splits_ofText before
  generalize ofText before = segments at hsplits
  induction segments generalizing before with
  | nil =>
    rw [← hsplits.text_eq]
    rfl
  | cons s rest ih =>
    obtain ⟨rfl, hs, hrest⟩ := splits_cons_iff.1 hsplits
    have hlast : ∀ c ∈ (rest.flatMap text).getLast?, c ≠ '$' := by
      intro c hc
      exact h c (List.mem_getLast?_append_of_mem_getLast? hc)
    rw [List.append_assoc, ofText_append (hs.append_dollar h more), ih hlast hrest,
      List.cons_append]

theorem ofText_of_isRun {cs before after : List Char} {dollars : Nat}
    (h : IsRun cs before dollars after) :
    ofText cs = ofText before ++ reference dollars (String.ofList (nameAt after)) ::
      ofText (after.drop (nameAt after).length) := by
  rw [← ofText_dollars h.pos h.stop, h.text_eq]
  obtain ⟨more, rfl⟩ := Nat.exists_eq_add_of_lt h.pos
  rw [Nat.zero_add, List.replicate_succ, List.cons_append]
  exact ofText_append_dollar h.start _

theorem ofText_of_isNamed {cs before name after : List Char} {dollars : Nat}
    (h : IsNamed cs before dollars name after) :
    ofText cs = ofText before ++ reference dollars (String.ofList name) :: ofText after := by
  rw [ofText_of_isRun h.toIsRun, nameAt_append h.isName h.longest, List.drop_left]

/-- The dollar signs of a segment are a run in the text. -/
theorem isRun_of_ofText {cs : List Char} {done rest : List Segment} {dollars : Nat} {name : String}
    (h : ofText cs = done ++ reference dollars name :: rest) :
    IsRun cs (done.flatMap text) dollars (name.toList ++ rest.flatMap text) := by
  obtain ⟨htext, hlongest⟩ := h ▸ splits_ofText cs
  have hs := hlongest done (reference dollars name) rest rfl
  have hpos : 0 < dollars := by
    cases hs <;> assumption
  refine ⟨?_, hpos, ?_, ?_⟩
  · rw [← htext, List.flatMap_append, List.flatMap_cons, text, List.append_assoc]
  · obtain ⟨more, hmore⟩ : ∃ more, (reference dollars name :: rest).flatMap text = '$' :: more := by
      obtain ⟨more, rfl⟩ := Nat.exists_eq_add_of_lt hpos
      exact ⟨_, rfl⟩
    rcases List.eq_nil_or_concat done with rfl | ⟨done, last, rfl⟩
    · rintro _ ⟨⟩
    · have hlast := hlongest done last (reference dollars name :: rest) (by simp)
      rw [hmore] at hlast
      intro c hc
      rw [List.concat_eq_append, List.flatMap_append, List.flatMap_singleton,
        List.getLast?_append_of_ne_nil _ hlast.text_ne_nil] at hc
      exact hlast.getLast?_ne_dollar c hc
  · cases hs with
    | bare hdollars hafter => exact fun c hc => (hafter c hc).1
    | named hdollars hname hafter =>
      obtain ⟨d, later, hd, hbegins, -⟩ := hname
      rw [hd]
      rintro _ ⟨⟩
      exact ContinuesName.ne_dollar (.inl hbegins)

theorem isNamed_of_ofText {cs : List Char} {done rest : List Segment} {dollars : Nat} {name : String}
    (h : ofText cs = done ++ reference dollars name :: rest) (hname : name ≠ "") :
    IsNamed cs (done.flatMap text) dollars name.toList (rest.flatMap text) := by
  have hs := (h ▸ splits_ofText cs).longest done (reference dollars name) rest rfl
  refine ⟨isRun_of_ofText h, ?_, ?_⟩
  · cases hs with
    | bare hdollars hafter => exact absurd rfl hname
    | named hdollars hname hafter => exact hname
  · cases hs with
    | bare hdollars hafter => exact absurd rfl hname
    | named hdollars hname hafter => exact hafter

end Segment
end StructuralSearch.Template
