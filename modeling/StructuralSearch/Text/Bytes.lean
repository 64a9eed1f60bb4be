/-!
# Byte offsets

Places in a text are counted in bytes of its UTF-8 form. A range denotes a part of the text when
both of its ends fall between characters: `slice?` reads that part, and `splice?` puts another text
in its place.
-/
namespace StructuralSearch.Text

/-- From the byte offset `start` up to, and without, the byte offset `stop`. -/
structure ByteRange where
  start : Nat
  stop : Nat
  deriving DecidableEq, Repr, Inhabited

/-- The two offsets with two dots between them. -/
def ByteRange.toText (r : ByteRange) : String :=
  toString r.start ++ ".." ++ toString r.stop

/-- The position `n` bytes into `s`, if no character lies across it. -/
def boundary? (s : String) (n : Nat) : Option s.Pos :=
  if h : (⟨n⟩ : String.Pos.Raw).IsValid s then some (s.pos ⟨n⟩ h) else none

/-- The part of `s` in the range, if the range denotes one. -/
def slice? (s : String) (r : ByteRange) : Option String :=
  match boundary? s r.start, boundary? s r.stop with
  | some p, some q => if h : p ≤ q then some (s.slice p q h).copy else none
  | _, _ => none

/-- `s` with `new` in place of the part in the range, if the range denotes one. -/
def splice? (s : String) (r : ByteRange) (new : String) : Option String :=
  match boundary? s r.start, boundary? s r.stop with
  | some p, some q =>
    if p ≤ q then some ((s.sliceTo p).copy ++ new ++ (s.sliceFrom q).copy) else none
  | _, _ => none

/-- The range denotes `part`, with `before` and `after` around it. -/
structure Denotes (s : String) (r : ByteRange) (before part after : String) : Prop where
  text_eq : s = before ++ part ++ after
  start_eq : r.start = before.utf8ByteSize
  stop_eq : r.stop = (before ++ part).utf8ByteSize

theorem boundary?_eq_some_iff {s : String} {n : Nat} {p : s.Pos} :
    boundary? s n = some p ↔ p.offset = ⟨n⟩ := by
  unfold boundary?
  split
  · rename_i h
    constructor
    · rintro ⟨⟩; simp
    · intro hp; congr 1; exact String.Pos.ext (by simpa using hp.symm)
  · rename_i h
    simp only [reduceCtorEq, false_iff]
    intro hp
    exact h (hp ▸ p.isValid)

/-- The position that splits a text in two is the boundary at the size of the first half. -/
theorem boundary?_of_splits {s a b : String} {p : s.Pos} (h : p.Splits a b) :
    boundary? s a.utf8ByteSize = some p :=
  boundary?_eq_some_iff.2 h.offset_eq_rawEndPos

/-- A text falls in two at every boundary. -/
theorem exists_splits_of_append (a b : String) :
    ∃ p : (a ++ b).Pos, p.Splits a b :=
  ⟨(a ++ b).pos a.rawEndPos (String.Pos.Raw.isValid_iff_exists_append.2 ⟨a, b, rfl, rfl⟩),
    ⟨rfl, by simp⟩⟩

theorem slice?_eq_some_iff {s t : String} {r : ByteRange} :
    slice? s r = some t ↔ ∃ a b, Denotes s r a t b := by
  constructor
  · intro h
    unfold slice? at h
    split at h
    · rename_i p q hp hq
      split at h
      · rename_i hle
        obtain ⟨a, b, h₁, h₂⟩ := String.copy_slice_eq_iff_splits.1 ⟨hle, Option.some.inj h⟩
        have e₁ := h₁.offset_eq_rawEndPos.symm.trans (boundary?_eq_some_iff.1 hp)
        have e₂ := h₂.offset_eq_rawEndPos.symm.trans (boundary?_eq_some_iff.1 hq)
        exact ⟨a, b, h₂.eq_append, (congrArg String.Pos.Raw.byteIdx e₁).symm,
          (congrArg String.Pos.Raw.byteIdx e₂).symm⟩
      · cases h
    · cases h
  · rintro ⟨a, b, rfl, hs, he⟩
    obtain ⟨q, hq⟩ := exists_splits_of_append (a ++ t) b
    obtain ⟨p, hp⟩ : ∃ p : (a ++ t ++ b).Pos, p.Splits a (t ++ b) := by
      obtain ⟨p, hp⟩ := exists_splits_of_append a (t ++ b)
      exact ⟨p.cast String.append_assoc.symm, hp.cast _⟩
    obtain ⟨hle, hc⟩ := String.copy_slice_eq_iff_splits.2 ⟨a, b, hp, hq⟩
    simp only [slice?, hs, he, boundary?_of_splits hp, boundary?_of_splits hq, hle, hc, dite_true]

theorem splice?_eq_some_iff {s new u : String} {r : ByteRange} :
    splice? s r new = some u ↔ ∃ a t b, Denotes s r a t b ∧ u = a ++ new ++ b := by
  constructor
  · intro h
    unfold splice? at h
    split at h
    · rename_i p q hp hq
      split at h
      · rename_i hle
        obtain ⟨a, b, h₁, h₂⟩ := String.copy_slice_eq_iff_splits.1 ⟨hle, rfl⟩
        have e₁ := h₁.offset_eq_rawEndPos.symm.trans (boundary?_eq_some_iff.1 hp)
        have e₂ := h₂.offset_eq_rawEndPos.symm.trans (boundary?_eq_some_iff.1 hq)
        refine ⟨a, _, b, ⟨h₂.eq_append, (congrArg String.Pos.Raw.byteIdx e₁).symm,
          (congrArg String.Pos.Raw.byteIdx e₂).symm⟩, ?_⟩
        rw [← Option.some.inj h, h₁.copy_sliceTo_eq, h₂.copy_sliceFrom_eq]
      · cases h
    · cases h
  · rintro ⟨a, t, b, ⟨rfl, hs, he⟩, rfl⟩
    obtain ⟨q, hq⟩ := exists_splits_of_append (a ++ t) b
    obtain ⟨p, hp⟩ : ∃ p : (a ++ t ++ b).Pos, p.Splits a (t ++ b) := by
      obtain ⟨p, hp⟩ := exists_splits_of_append a (t ++ b)
      exact ⟨p.cast String.append_assoc.symm, hp.cast _⟩
    obtain ⟨hle, -⟩ := String.copy_slice_eq_iff_splits.2 ⟨a, b, hp, hq⟩
    simp only [splice?, hs, he, boundary?_of_splits hp, boundary?_of_splits hq, hle, if_true,
      hp.copy_sliceTo_eq, hq.copy_sliceFrom_eq]

end StructuralSearch.Text
