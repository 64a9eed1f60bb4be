import Mathlib.Data.List.Forall2
import StructuralSearch.Proofs.Template.Placeholders
import StructuralSearch.Replacing.Replacement

/-!
# Substitution

A replacement is read in one way, for the check of its references and for every match alike. The
segments that refer to a name are the ones that can change; a match has no say in a replacement but
through the texts that it captures for these names.
-/
namespace StructuralSearch

open Template (Segment wildcard)

namespace Template.Segment

/-- The name behind one dollar sign or three, if there is one. -/
def refersTo? : Segment → Option String
  | char _ => none
  | reference dollars name => if (dollars = 1 ∨ dollars = 3) ∧ name ≠ "" then some name else none

theorem reference?_eq_refersTo? (s : Segment) : s.reference? = s.refersTo? := by
  cases s with
  | char c => rfl
  | reference dollars name =>
    rw [reference?, refersTo?, MetavariableKind.ofDollars?_eq]
    by_cases hname : name = ""
    · simp [hname]
    · by_cases hdollars : dollars = 1 ∨ dollars = 3 <;> simp [hname, hdollars]

end Template.Segment

namespace Replacement

/-- What a segment of a replacement gives for a match: nothing for the wildcard, the captured text
for a name that the match captures, and the segment itself when it refers to no such name. -/
inductive Gives (found : Finding) (s : Segment) : List Char → Prop
  | wildcard (h : s.refersTo? = some wildcard) : Gives found s []
  | captured {name : String} {value : Captured} (h : s.refersTo? = some name)
      (hname : name ≠ wildcard) (hvalue : found.capture? name = some value) :
      Gives found s value.text.toList
  | kept (h : ∀ name, s.refersTo? = some name → name ≠ wildcard ∧ found.capture? name = none) :
      Gives found s s.text

theorem gives_fill (found : Finding) (s : Segment) : Gives found s (fill found s) := by
  unfold fill
  rw [s.reference?_eq_refersTo?]
  cases hname : s.refersTo? with
  | none => exact .kept fun name h => nomatch hname.symm.trans h
  | some name =>
    dsimp only
    split
    · rename_i hwild
      exact .wildcard (hwild ▸ hname)
    · rename_i hnamed
      split
      · rename_i value hvalue
        exact .captured hname hnamed hvalue
      · rename_i hnone
        refine .kept fun other hother => ?_
        cases hname.symm.trans hother
        exact ⟨hnamed, hnone⟩

/-- A segment takes the text captured for the name that it refers to, and nothing else of a
match. -/
theorem fill_congr {found found' : Finding} {s : Segment}
    (h : ∀ name, s.reference? = some name →
      (found.capture? name).map Captured.text = (found'.capture? name).map Captured.text) :
    fill found s = fill found' s := by
  unfold fill
  split
  · rfl
  · rename_i name hname
    have htext := h name hname
    split
    · rfl
    · cases hvalue : found.capture? name with
      | none =>
        rw [hvalue, Option.map_none, eq_comm, Option.map_eq_none_iff] at htext
        rw [htext]
      | some value =>
        rw [hvalue, Option.map_some, eq_comm, Option.map_eq_some_iff] at htext
        obtain ⟨value', hvalue', htext⟩ := htext
        rw [hvalue']
        exact congrArg String.toList htext.symm

/-- **Substitution reads what the check reads.** A replacement splits in one way into segments as
long as they can be. The names that it refers to are those of its segments. For every match the
replacement is what the segments give, one after the other; so two matches that capture the same
texts for these names have the same replacement. -/
theorem substitute_by_segments (replacement : String) :
    ∃ segments, (∀ other, Segment.Splits other replacement.toList ↔ other = segments) ∧
      references replacement = segments.filterMap Segment.refersTo? ∧
      (∀ found, ∃ parts, List.Forall₂ (Gives found) segments parts ∧
        (substitute replacement found).toList = parts.flatten) ∧
      ∀ found found' : Finding, (∀ name ∈ references replacement,
          (found.capture? name).map Captured.text = (found'.capture? name).map Captured.text) →
        substitute replacement found = substitute replacement found' := by
  refine ⟨Segment.ofText replacement.toList, fun _ => Segment.splits_iff, ?_, ?_, ?_⟩
  · exact List.filterMap_congr fun s _ => s.reference?_eq_refersTo?
  · intro found
    refine ⟨(Segment.ofText replacement.toList).map (fill found), ?_, ?_⟩
    · exact List.forall₂_map_right_iff.2 (List.forall₂_same.2 fun s _ => gives_fill found s)
    · rw [substitute, String.toList_ofList, List.flatMap_def]
  · intro found found' hagree
    refine congrArg String.ofList (List.flatMap_congr fun s hs => fill_congr fun name hname => ?_)
    exact hagree name (List.mem_filterMap.2 ⟨s, hs, hname⟩)

/-- A match that captures a text which looks like a reference, and perhaps more. -/
def capturesReference (others : List (String × Captured)) : Finding where
  node := ⟨"$Y", [], default⟩
  captures := ("X", .run [] ⟨0, 2⟩ "$Y") :: others

/-- The captured text is not read again, and what else is captured makes no difference. -/
theorem substitute_captured_reference :
    let replacement := "$X$Xy$$X$_$$$Y$"
    let found := capturesReference []
    let found' := capturesReference [("Z", .run [] ⟨1, 2⟩ "Y")]
    references replacement = ["X", "X", "_", "Y"] ∧
      substitute replacement found = "$Y$Yy$$X$$$Y$" ∧
      substitute replacement found = substitute replacement found' := by
  intro replacement found found'
  obtain ⟨-, -, -, -, hcongr⟩ := substitute_by_segments replacement
  have hagree : ∀ name ∈ references replacement, (found.capture? name).map Captured.text =
      (found'.capture? name).map Captured.text := by decide +kernel
  exact ⟨by decide +kernel, by decide +kernel, hcongr found found' hagree⟩

end Replacement
end StructuralSearch
