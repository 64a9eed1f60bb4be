import StructuralSearch.Text.Bytes

/-! A byte offset in a text is a boundary when the text falls in two there. What a range denotes
depends on nothing but the boundaries up to its end. -/
namespace StructuralSearch.Text

def IsBoundary (s : String) (n : Nat) : Prop :=
  ∃ a b, s = a ++ b ∧ n = a.utf8ByteSize

/-- The range runs forwards, from one boundary of the text to another. -/
structure Aligned (s : String) (r : ByteRange) : Prop where
  start_le_stop : r.start ≤ r.stop
  start : IsBoundary s r.start
  stop : IsBoundary s r.stop

/-- Of two ways in which a text falls in two, the earlier leaves a text in between. -/
theorem exists_between {a b c d : String} (h : a ++ b = c ++ d)
    (hle : a.utf8ByteSize ≤ c.utf8ByteSize) : ∃ m, c = a ++ m ∧ b = m ++ d := by
  obtain ⟨p, hp⟩ := exists_splits_of_append a b
  obtain ⟨q, hq⟩ := exists_splits_of_append c d
  have hq' : (q.cast h.symm).Splits c d := hq.cast h.symm
  apply (hp.le_iff_exists_eq_append hq').1
  show p.offset.byteIdx ≤ (q.cast h.symm).offset.byteIdx
  rw [hp.offset_eq_rawEndPos, hq'.offset_eq_rawEndPos]
  exact hle

theorem IsBoundary.le_utf8ByteSize {s : String} {n : Nat} (h : IsBoundary s n) :
    n ≤ s.utf8ByteSize := by
  obtain ⟨a, b, rfl, rfl⟩ := h
  rw [String.utf8ByteSize_append]
  exact Nat.le_add_right _ _

theorem IsBoundary.append {a : String} {n : Nat} (h : IsBoundary a n) (b : String) :
    IsBoundary (a ++ b) n := by
  obtain ⟨c, d, rfl, rfl⟩ := h
  exact ⟨c, d ++ b, String.append_assoc, rfl⟩

/-- A boundary of a text is one of every beginning that it falls into. -/
theorem IsBoundary.of_append {a b : String} {n : Nat} (h : IsBoundary (a ++ b) n)
    (hn : n ≤ a.utf8ByteSize) : IsBoundary a n := by
  obtain ⟨c, d, hcd, rfl⟩ := h
  obtain ⟨m, rfl, -⟩ := exists_between hcd.symm hn
  exact ⟨c, m, rfl, rfl⟩

theorem Aligned.stop_le {s : String} {r : ByteRange} (h : Aligned s r) :
    r.stop ≤ s.utf8ByteSize :=
  h.stop.le_utf8ByteSize

theorem Aligned.append {a : String} {r : ByteRange} (h : Aligned a r) (b : String) :
    Aligned (a ++ b) r :=
  ⟨h.start_le_stop, h.start.append b, h.stop.append b⟩

/-- Whether a range is aligned does not depend on the text after it. -/
theorem Aligned.of_append {a b : String} {r : ByteRange} (h : Aligned (a ++ b) r)
    (hr : r.stop ≤ a.utf8ByteSize) : Aligned a r :=
  ⟨h.start_le_stop, h.start.of_append (Nat.le_trans h.start_le_stop hr), h.stop.of_append hr⟩

theorem Denotes.aligned {s a part b : String} {r : ByteRange} (h : Denotes s r a part b) :
    Aligned s r := by
  obtain ⟨rfl, hstart, hstop⟩ := h
  refine ⟨?_, ⟨a, part ++ b, String.append_assoc, hstart⟩, ⟨a ++ part, b, rfl, hstop⟩⟩
  rw [hstart, hstop, String.utf8ByteSize_append]
  exact Nat.le_add_right _ _

/-- The aligned ranges are those that denote a part of the text. -/
theorem aligned_iff_denotes {s : String} {r : ByteRange} :
    Aligned s r ↔ ∃ a part b, Denotes s r a part b := by
  constructor
  · rintro ⟨hle, ⟨a, b, hab, hstart⟩, ⟨c, d, hcd, hstop⟩⟩
    obtain ⟨part, rfl, rfl⟩ := exists_between (hab.symm.trans hcd) (by rwa [← hstart, ← hstop])
    exact ⟨a, part, d, hcd, hstart, hstop⟩
  · rintro ⟨a, part, b, h⟩
    exact h.aligned

theorem splice?_eq_none_of_not_aligned {s : String} {r : ByteRange} (new : String)
    (h : ¬Aligned s r) : splice? s r new = none := by
  cases hs : splice? s r new with
  | none => rfl
  | some u =>
    obtain ⟨a, part, b, hdenotes, -⟩ := splice?_eq_some_iff.1 hs
    exact absurd hdenotes.aligned h

end StructuralSearch.Text
