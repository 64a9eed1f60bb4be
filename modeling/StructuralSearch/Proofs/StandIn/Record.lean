import StructuralSearch.CommandLine.Run
import StructuralSearch.Proofs.StandIn.Json

/-!
# The stand-in for the writer of records

A record is written on one line, from which it is read back.
-/
namespace StructuralSearch.StandIn.Record

open Json (ReadsAs Token)

/-- The tokens of a record. -/
def tokens (r : MatchRecord) : List Token :=
  Json.objectTokens
    [("path", [.text r.path]),
      ("line", [.count r.line]),
      ("column", [.count r.column]),
      ("end_line", [.count r.endLine]),
      ("end_column", [.count r.endColumn]),
      ("text", [.text r.text]),
      ("captures", Json.objectTokens (r.captures.map fun c => (c.1, [.text c.2])))]

theorem readCaptures?_cons (name value : String) (rest : List Token) :
    readCaptures? (.text name :: .colon :: .text value :: .comma :: rest) =
      (readCaptures? rest).map ((name, value) :: ·) := by
  rw [readCaptures?]

theorem readCaptures?_intercalate (captures : List (String × String)) :
    readCaptures? ([Token.comma].intercalate
      (captures.map fun c => [.text c.1, .colon, .text c.2]) ++ [.closeBrace, .closeBrace]) =
      some captures := by
  induction captures with
  | nil => rfl
  | cons c rest ih =>
    cases rest with
    | nil => rfl
    | cons d others =>
      rw [List.map_cons, List.map_cons, List.intercalate_cons_cons]
      exact (readCaptures?_cons c.1 c.2 _).trans (congrArg (Option.map ((c.1, c.2) :: ·)) ih)

theorem readsAs_captures (r : MatchRecord) :
    ReadsAs (Json.object (r.captures.map fun c => (c.1, Json.quoted c.2))).toList
      (Json.objectTokens (r.captures.map fun c => (c.1, [.text c.2]))) := by
  refine Json.readsAs_object (List.forall₂_map_left_iff.2 (List.forall₂_map_right_iff.2 ?_))
  exact List.forall₂_same.2 fun c _ => ⟨rfl, Json.readsAs_quoted c.2⟩

theorem tokens?_toJson {r : MatchRecord} (h : r.WellFormed) :
    Json.tokens? (toJson r).toList = some (tokens r) := by
  have hcount : ∀ n ∈ [r.line, r.column, r.endLine, r.endColumn], n < Text.countBound :=
    fun n hn => Nat.lt_of_le_of_lt (h.positions n hn) (by decide)
  simp only [List.forall_mem_cons] at hcount
  obtain ⟨hline, hcolumn, hendLine, hendColumn, -⟩ := hcount
  exact ReadsAs.all <| Json.readsAs_object <|
    .cons ⟨rfl, Json.readsAs_quoted r.path⟩ <|
    .cons ⟨rfl, Json.readsAs_count hline⟩ <|
    .cons ⟨rfl, Json.readsAs_count hcolumn⟩ <|
    .cons ⟨rfl, Json.readsAs_count hendLine⟩ <|
    .cons ⟨rfl, Json.readsAs_count hendColumn⟩ <|
    .cons ⟨rfl, Json.readsAs_quoted r.text⟩ <|
    .cons ⟨rfl, readsAs_captures r⟩ .nil

theorem ofTokens?_tokens (r : MatchRecord) : ofTokens? (tokens r) = some r := by
  rw [tokens, Json.objectTokens, Json.objectTokens, List.map_map]
  simp only [List.map_cons, List.map_nil, List.intercalate_cons_cons, List.intercalate_singleton,
    List.cons_append, List.nil_append, List.append_assoc, ofTokens?]
  exact congrArg (Option.map _) (readCaptures?_intercalate r.captures)

theorem lineFeed_not_mem_toJson (r : MatchRecord) : '\n' ∉ (toJson r).toList := by
  have hcaptures :
      '\n' ∉ (Json.object (r.captures.map fun c => (c.1, Json.quoted c.2))).toList :=
    Json.lineFeed_not_mem_object (List.forall_mem_map.2 fun c _ => Json.lineFeed_not_mem_quoted _)
  refine Json.lineFeed_not_mem_object ?_
  simp [hcaptures, Json.lineFeed_not_mem_quoted, Text.lineFeed_not_mem_toDigits]

theorem writesRecords_standIns : CommandLine.standIns.WritesRecords ofJson? where
  error _ _ := rfl
  oneLine r _ := lineFeed_not_mem_toJson r
  readBack r h := by
    show (Json.tokens? (toJson r).toList).bind ofTokens? = some r
    rw [tokens?_toJson h, Option.bind_some, ofTokens?_tokens]

end StructuralSearch.StandIn.Record
