import StructuralSearch.Proofs.Source.Order
import StructuralSearch.Source.Parsed

/-!
# Contexts of parse faults

A parse fault shows the text in question, and of a long one the beginning with three dots. Whether a
text is long is told by its bytes, and how much of it is kept by its characters. So no context has
more characters than are shown in full; but a text of many bytes in few characters gets the dots
although it loses less than they add, or nothing at all.
-/
namespace StructuralSearch

/-- A text has at least one byte for each character. -/
theorem Text.length_le_utf8ByteSize (s : String) : s.length ≤ s.utf8ByteSize := by
  induction s using String.push_induction with
  | empty => exact Nat.le_refl 0
  | push s c ih =>
    have hc := c.utf8Size_pos
    rw [String.length_push, String.utf8ByteSize_push]
    omega

namespace ParseFault

/-- What shows a text in short: the text itself, or the beginning of it with three dots for the
rest, of which there is some. It has no more characters than the text. -/
inductive InShort (text : String) : String → Prop
  | whole : InShort text text
  | dotted {kept dropped : String} (htext : text = kept ++ dropped) (hdropped : dropped ≠ "")
      (hlength : (kept ++ "...").length ≤ text.length) : InShort text (kept ++ "...")

theorem InShort.length_le {text context : String} (h : InShort text context) :
    context.length ≤ text.length := by
  cases h with
  | whole => exact Nat.le_refl _
  | dotted _ _ hlength => exact hlength

theorem shorten_of_le {text : String} (h : text.utf8ByteSize ≤ shownInFull) :
    shorten text = text := by
  rw [shorten, if_neg (Nat.not_lt.2 h)]

/-- The beginning of a text that is kept when it is long, and the rest. -/
theorem exists_kept (text : String) :
    ∃ kept dropped, text = kept ++ dropped ∧ kept.length = min keptOfLonger text.length ∧
      (shownInFull < text.utf8ByteSize → shorten text = kept ++ "...") := by
  refine ⟨.ofList (text.toList.take keptOfLonger), .ofList (text.toList.drop keptOfLonger),
    ?_, ?_, ?_⟩
  · rw [← String.ofList_append, List.take_append_drop, String.ofList_toList]
  · rw [String.length_ofList, List.length_take, String.length_toList]
  · intro hlong
    rw [shorten, if_pos hlong]

theorem length_shorten_le (text : String) : (shorten text).length ≤ shownInFull := by
  obtain ⟨kept, dropped, -, hkept, hlonger⟩ := exists_kept text
  by_cases hshort : text.utf8ByteSize ≤ shownInFull
  · rw [shorten_of_le hshort]
    exact Nat.le_trans (Text.length_le_utf8ByteSize text) hshort
  · rw [hlonger (Nat.not_le.1 hshort), String.length_append, hkept]
    show min 47 _ + 3 ≤ 50
    omega

/-- A long text is shown in short when it has as many characters as its beginning with the dots. -/
theorem inShort_shorten_iff {text : String} :
    InShort text (shorten text) ↔ text.utf8ByteSize ≤ shownInFull ∨ shownInFull ≤ text.length := by
  have hdots : ("...").length = 3 := rfl
  have hfull : shownInFull = keptOfLonger + 3 := rfl
  obtain ⟨kept, dropped, htext, hkept, hlonger⟩ := exists_kept text
  constructor
  · intro h
    by_cases hshort : text.utf8ByteSize ≤ shownInFull
    · exact .inl hshort
    · have hle := h.length_le
      rw [hlonger (Nat.not_le.1 hshort), String.length_append] at hle
      exact .inr (by omega)
  · rintro (hshort | hmany)
    · rw [shorten_of_le hshort]
      exact .whole
    · by_cases hshort : text.utf8ByteSize ≤ shownInFull
      · rw [shorten_of_le hshort]
        exact .whole
      · rw [hlonger (Nat.not_le.1 hshort)]
        refine .dotted htext ?_ ?_
        · rintro rfl
          rw [String.append_empty] at htext
          rw [← htext] at hkept
          omega
        · rw [String.length_append]
          omega

theorem context_ofNode {n : SourceNode} {text : String}
    (h : Text.slice? n.source n.range = some text) : (ofNode n).context = shorten text := by
  show ((Text.slice? n.source n.range).map shorten).getD "" = _
  rw [h]
  rfl

end ParseFault

/-- A fault of a source is about a node of it that is in error or missing. -/
theorem ParsedSource.exists_node_of_mem_faults {s : ParsedSource} {f : ParseFault}
    (h : f ∈ s.faults) :
    ∃ n ∈ s.nodes, (n.label.isError || n.label.missing) = true ∧ n.source = s.text ∧
      f = .ofNode n := by
  obtain ⟨n, hn, rfl⟩ := List.mem_map.1 h
  obtain ⟨hn, hfault⟩ := List.mem_filter.1 hn
  refine ⟨n, hn, hfault, ?_, rfl⟩
  rw [nodes_eq_preOrder] at hn
  exact SourceNode.source_of_mem_preOrder hn

namespace ParseFault

/-- **The context of a fault.** It is the text in question when that has few bytes, and otherwise
the beginning of it with dots. It shows the text in short exactly when the text has few bytes or is
not shorter than what would be shown instead; in any case it has few characters. -/
theorem context_shows_text {s : ParsedSource} {f : ParseFault} (hf : f ∈ s.faults) {text : String}
    (htext : Text.slice? s.text f.range = some text) :
    (text.utf8ByteSize ≤ shownInFull → f.context = text) ∧
    (shownInFull < text.utf8ByteSize → ∃ kept dropped, text = kept ++ dropped ∧
      kept.length = min keptOfLonger text.length ∧ f.context = kept ++ "...") ∧
    (InShort text f.context ↔ text.utf8ByteSize ≤ shownInFull ∨ shownInFull ≤ text.length) ∧
    f.context.length ≤ shownInFull := by
  obtain ⟨n, -, -, hsource, rfl⟩ := s.exists_node_of_mem_faults hf
  rw [← hsource] at htext
  rw [context_ofNode htext]
  refine ⟨shorten_of_le, ?_, inShort_shorten_iff, length_shorten_le text⟩
  intro hlong
  obtain ⟨kept, dropped, hparts, hkept, hlonger⟩ := exists_kept text
  exact ⟨kept, dropped, hparts, hkept, hlonger hlong⟩

/-- Six times the name of a language, and what cannot follow: fifty-nine bytes in twenty-three
characters, all of them in error. -/
def sixNames : ParsedSource where
  language := .rust
  text := "日本語日本語日本語日本語日本語日本語 @@ \x7d"
  tree := .node ⟨"source_file", true, false, false, false, ⟨0, 59⟩, none⟩
    [.node ⟨"ERROR", true, true, false, true, ⟨0, 59⟩, none⟩
      [.node ⟨"identifier", true, false, false, false, ⟨0, 54⟩, none⟩ [],
        .node ⟨"@", false, false, false, false, ⟨55, 56⟩, none⟩ [],
        .node ⟨"@", false, false, false, false, ⟨56, 57⟩, none⟩ [],
        .node ⟨"\x7d", false, false, false, false, ⟨58, 59⟩, none⟩ []]]
  hasError := true

def sixNamesFault : ParseFault :=
  .ofNode ⟨sixNames.text, [(0, sixNames.tree)], sixNames.tree.children.head!⟩

theorem sixNamesFault_mem_faults : sixNamesFault ∈ sixNames.faults := by
  refine List.mem_map_of_mem (List.mem_filter.2 ⟨?_, rfl⟩)
  rw [ParsedSource.nodes_eq_preOrder]
  exact SourceNode.mem_preOrder_of_mem_below sixNames.root.mem_preOrder_self List.mem_cons_self

theorem slice?_sixNamesFault :
    Text.slice? sixNames.text sixNamesFault.range = some sixNames.text := by
  decide +kernel

/-- The whole text is kept, and gets three dots. -/
theorem context_sixNamesFault :
    sixNamesFault ∈ sixNames.faults ∧
      Text.slice? sixNames.text sixNamesFault.range = some sixNames.text ∧
      sixNamesFault.context = sixNames.text ++ "..." := by
  have hmem := sixNamesFault_mem_faults
  have hslice := slice?_sixNamesFault
  obtain ⟨-, hlong, -, -⟩ := context_shows_text hmem hslice
  obtain ⟨kept, dropped, htext, hkept, hcontext⟩ := hlong (by decide +kernel)
  have hlength : kept.length = sixNames.text.length := hkept.trans (by decide +kernel)
  have hparts := congrArg String.length htext
  rw [String.length_append] at hparts
  obtain rfl : dropped = "" := String.length_eq_zero_iff.1 (by omega)
  rw [String.append_empty] at htext
  exact ⟨hmem, hslice, htext ▸ hcontext⟩

/-- Not every context shows the text in short. -/
theorem not_inShort_context :
    ¬∀ (s : ParsedSource), ∀ f ∈ s.faults, ∀ text,
      Text.slice? s.text f.range = some text → InShort text f.context := by
  intro h
  have hshort := h sixNames sixNamesFault sixNamesFault_mem_faults _ slice?_sixNamesFault
  rw [sixNamesFault, context_ofNode slice?_sixNamesFault, inShort_shorten_iff] at hshort
  exact absurd hshort (by decide +kernel)

end ParseFault
end StructuralSearch
