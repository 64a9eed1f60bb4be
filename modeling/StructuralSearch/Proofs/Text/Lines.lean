import Mathlib.Data.List.Basic
import StructuralSearch.Text.Lines

/-!
# Fronts and lines

A text may fall apart after its front, where the characters of one kind end, or after each line,
where a line feed stands.
-/
namespace StructuralSearch.Text

/-- What stands in front is all of the beginning that passes the test, when the rest does not go on
with a character that passes it. -/
theorem takeWhile_append_of_head? {p : Char → Bool} {front after : List Char}
    (hfront : ∀ c ∈ front, p c) (hafter : ∀ c ∈ after.head?, ¬p c) :
    (front ++ after).takeWhile p = front := by
  rw [List.takeWhile_append_of_pos hfront]
  cases after with
  | nil => rw [List.takeWhile_nil, List.append_nil]
  | cons c rest =>
    rw [List.takeWhile_cons_of_neg (hafter c rfl), List.append_nil]

theorem lineFeed_not_mem_toDigits (n : Nat) : '\n' ∉ Nat.toDigits 10 n := by
  intro h
  cases Nat.isDigit_of_mem_toDigits (by decide) (by decide) h

theorem mem_of_mem_dropReturn {line : List Char} {c : Char} (h : c ∈ dropReturn line) : c ∈ line := by
  unfold dropReturn at h
  split at h
  · exact List.dropLast_subset line h
  · exact h

theorem lineFeed_not_mem_splitLines {line : List Char} (hline : '\n' ∉ line) (cs : List Char) :
    ∀ l ∈ splitLines line cs, '\n' ∉ l := by
  induction cs generalizing line with
  | nil =>
    rw [splitLines]
    split
    · exact nofun
    · rw [List.forall_mem_singleton, List.mem_reverse]
      exact hline
  | cons c rest ih =>
    rw [splitLines]
    split
    · refine List.forall_mem_cons.2 ⟨fun h => hline ?_, ih List.not_mem_nil⟩
      exact List.mem_reverse.1 (mem_of_mem_dropReturn h)
    · rename_i hc
      refine ih fun h => ?_
      rcases List.mem_cons.1 h with rfl | h
      · exact hc rfl
      · exact hline h

theorem lineFeed_not_mem_firstLine (s : String) : '\n' ∉ (firstLine s).toList := by
  have hlines := lineFeed_not_mem_splitLines List.not_mem_nil s.toList
  rw [firstLine, lines]
  cases hparts : splitLines [] s.toList with
  | nil => exact List.not_mem_nil
  | cons first rest =>
    rw [hparts] at hlines
    rw [List.map_cons, List.headD_cons, String.toList_ofList]
    exact hlines first List.mem_cons_self

/-- The text is made up of the lines, each with a line feed behind it. -/
def MadeOfLines (text : String) (lines : List String) : Prop :=
  text.toList.splitOn '\n' = lines.map String.toList ++ [[]]

theorem madeOfLines_join {lines : List String} (h : ∀ line ∈ lines, '\n' ∉ line.toList) :
    MadeOfLines (String.join (lines.map (· ++ "\n"))) lines := by
  induction lines with
  | nil => rfl
  | cons line rest ih =>
    obtain ⟨hline, hrest⟩ := List.forall_mem_cons.1 h
    have hparts : (String.join ((line :: rest).map (· ++ "\n"))).toList =
        line.toList ++ '\n' :: (String.join (rest.map (· ++ "\n"))).toList := by
      rw [List.map_cons, String.join_cons, String.toList_append, String.toList_append,
        List.append_assoc]
      rfl
    rw [MadeOfLines, hparts, List.splitOn_append_cons_self_of_not_mem hline, ih hrest]
    rfl

theorem MadeOfLines.eq_empty_iff {text : String} {lines : List String}
    (h : MadeOfLines text lines) : text = "" ↔ lines = [] := by
  constructor
  · rintro rfl
    have hnone : [] = lines.map String.toList := List.append_cancel_right h
    exact List.map_eq_nil_iff.1 hnone.symm
  · rintro rfl
    have hempty : ['\n'].intercalate (text.toList.splitOn '\n') = text.toList :=
      List.intercalate_splitOn '\n'
    rw [h] at hempty
    exact String.toList_eq_nil_iff.1 hempty.symm

end StructuralSearch.Text
