import Mathlib.Data.List.Forall2
import StructuralSearch.CommandLine.Program
import StructuralSearch.Proofs.Search.Exact
import StructuralSearch.Proofs.Text.Lines

/-!
# What the line of a match tells

A match is shown on one line, also when its text has several. For a reader the line begins with
where the match is; from that for a program the whole record is read back.
-/
namespace StructuralSearch

theorem Text.Position.ofOffset_le_greatest (s : String) (offset : Nat) :
    (ofOffset s offset).line ≤ greatest ∧ (ofOffset s offset).column ≤ greatest :=
  ⟨Nat.min_le_right _ _, Nat.min_le_right _ _⟩

namespace Finding

/-- The line tells of the match in the file at the path: a program reads its record from it, a
reader where it begins and the first line of its text. -/
def IsToldBy (readRecord : String → Option MatchRecord) (json : Bool) (m : String × Finding)
    (line : String) : Prop :=
  if json then readRecord line = some (m.2.toRecord m.1)
  else
    line = m.1 ++ ":" ++ toString m.2.node.startPosition.line ++ ":" ++
      toString m.2.node.startPosition.column ++ ": " ++ Text.firstLine m.2.text

/-- The names of what it captures are in order. -/
def InOrder (m : Finding) : Prop :=
  (m.captures.map (·.1)).Pairwise (· < ·)

theorem InOrder.wellFormed_toRecord {m : Finding} (h : m.InOrder) (path : String) :
    (m.toRecord path).WellFormed where
  positions := by
    obtain ⟨hline, hcolumn⟩ := Text.Position.ofOffset_le_greatest m.node.source m.node.range.start
    obtain ⟨hendLine, hendColumn⟩ :=
      Text.Position.ofOffset_le_greatest m.node.source m.node.range.stop
    simp only [List.forall_mem_cons]
    exact ⟨hline, hcolumn, hendLine, hendColumn, nofun⟩
  names := by
    show ((m.captures.map fun c => (c.1, c.2.text)).map (·.1)).Pairwise (· < ·)
    rw [List.map_map]
    exact h

end Finding

theorem Template.inOrder_of_mem_findings {t : Template} {s : ParsedSource} {limit : Nat}
    {found : Finding} (h : found ∈ t.findings s limit) : found.InOrder := by
  rw [findings_eq_take] at h
  obtain ⟨-, -, hnames, -⟩ := report_of_mem_allFindings (List.mem_of_mem_take h)
  exact hnames

namespace CommandLine

open Finding (IsToldBy)

/-! ## One match -/

section

variable {world : World} {readRecord : String → Option MatchRecord}
  (hrecords : world.packages.WritesRecords readRecord) {path : String} (hpath : '\n' ∉ path.toList)

include hpath in
theorem exists_toLine (readRecord : String → Option MatchRecord) (m : Finding) :
    ∃ line, m.toLine path = line ++ "\n" ∧ '\n' ∉ line.toList ∧
      IsToldBy readRecord false (path, m) line := by
  refine ⟨path ++ ":" ++ m.node.startPosition.toText ++ ": " ++ Text.firstLine m.text, rfl, ?_, ?_⟩
  · have htext := Text.lineFeed_not_mem_firstLine m.text
    simp [Text.Position.toText, hpath, htext, Text.lineFeed_not_mem_toDigits]
  · simp [IsToldBy, Text.Position.toText, String.append_assoc]

include hrecords hpath in
theorem exists_shownLine (json : Bool) {m : Finding} (hm : m.InOrder) :
    ∃ line, shownLine world json path m = { text := line ++ "\n" } ∧ '\n' ∉ line.toList ∧
      IsToldBy readRecord json (path, m) line := by
  cases json with
  | false =>
    obtain ⟨line, hline, hplain, htold⟩ := exists_toLine hpath readRecord m
    exact ⟨line, congrArg (Written.mk · none) hline, hplain, htold⟩
  | true =>
    have hwellFormed := hm.wellFormed_toRecord path
    have herror := hrecords.error _ hwellFormed
    refine ⟨(world.packages.writeRecord (m.toRecord path)).text, ?_,
      hrecords.oneLine _ hwellFormed, hrecords.readBack _ hwellFormed⟩
    rw [shownLine, if_pos rfl]
    split
    · rename_i hwritten
      rw [hwritten]
    · rename_i hwritten
      rw [hwritten] at herror
      cases herror

end

/-! ## Match after match -/

/-- Matches as they are shown, one after the other. -/
def listing (world : World) (json : Bool) (ms : List (String × Finding)) : String :=
  String.join (ms.map fun m => (shownLine world json m.1 m.2).text)

theorem listing_cons (world : World) (json : Bool) (m : String × Finding)
    (ms : List (String × Finding)) :
    listing world json (m :: ms) =
      (shownLine world json m.1 m.2).text ++ listing world json ms :=
  String.join_cons

theorem listing_append (world : World) (json : Bool) (ms ns : List (String × Finding)) :
    listing world json (ms ++ ns) = listing world json ms ++ listing world json ns := by
  rw [listing, List.map_append, String.join_append]
  rfl

section

variable {world : World} {readRecord : String → Option MatchRecord}
  (hrecords : world.packages.WritesRecords readRecord)

include hrecords

/-- In a file all matches are shown. -/
theorem showMatches_eq (json : Bool) {path : String} (hpath : '\n' ∉ path.toList)
    {found : List Finding} (hfound : ∀ m ∈ found, m.InOrder) :
    showMatches world json path found = { text := listing world json (found.map (path, ·)) } := by
  induction found with
  | nil => rfl
  | cons m rest ih =>
    obtain ⟨hm, hrest⟩ := List.forall_mem_cons.1 hfound
    obtain ⟨line, hshown, -⟩ := exists_shownLine hrecords hpath json hm
    rw [showMatches, hshown, ih hrest, List.map_cons, listing_cons, hshown]

/-- Each match has a line of its own that tells of it. -/
theorem exists_lines_listing (json : Bool) {ms : List (String × Finding)}
    (h : ∀ m ∈ ms, '\n' ∉ m.1.toList ∧ m.2.InOrder) :
    ∃ lines, Text.MadeOfLines (listing world json ms) lines ∧
      List.Forall₂ (IsToldBy readRecord json) ms lines := by
  have hall : ∃ lines : List String, (∀ line ∈ lines, '\n' ∉ line.toList) ∧
      (ms.map fun m => (shownLine world json m.1 m.2).text) = lines.map (· ++ "\n") ∧
      List.Forall₂ (IsToldBy readRecord json) ms lines := by
    induction ms with
    | nil => exact ⟨[], nofun, rfl, .nil⟩
    | cons m rest ih =>
      obtain ⟨⟨hpath, hm⟩, hrest⟩ := List.forall_mem_cons.1 h
      obtain ⟨line, hshown, hline, htold⟩ := exists_shownLine hrecords hpath json hm
      obtain ⟨lines, hlines, hothers, htolds⟩ := ih hrest
      refine ⟨line :: lines, List.forall_mem_cons.2 ⟨hline, hlines⟩, ?_, .cons htold htolds⟩
      rw [List.map_cons, List.map_cons, hshown, hothers]
  obtain ⟨lines, hlines, hshown, htold⟩ := hall
  rw [listing, hshown]
  exact ⟨lines, Text.madeOfLines_join hlines, htold⟩

end

end CommandLine
end StructuralSearch
