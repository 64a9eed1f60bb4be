import StructuralSearch.Proofs.Matching.Refinement
import StructuralSearch.Proofs.Source.Order
import StructuralSearch.Proofs.Text.Boundaries
import StructuralSearch.Replacing.Rule

/-!
# Replacing splices the source

A rule edits one text from its last match to its first. The matches that it keeps lie one after the
other, so an edit leaves everything before the later matches as it was in the source: there the
boundaries are those of the source, and the ranges still to come denote what they denoted at first.
`splicedFrom?` says what comes out without any editing, from parts of the source alone.
-/
namespace StructuralSearch

open Text (Aligned)

/-! ## What is captured comes from the source -/

/-- The text is the part of the source that the range denotes. -/
def Captured.IsPartOf (source : String) (value : Captured) : Prop :=
  value.text = (Text.slice? source value.range).getD ""

namespace Template

theorem isPartOf_of_captured? {t : Template} {source name : String} {nodes : List SourceNode}
    {value : Captured} (hnodes : ∀ n ∈ nodes, n.source = source)
    (h : t.captured? source name nodes = some value) : value.IsPartOf source := by
  unfold captured? at h
  split at h
  · obtain ⟨n, hn, rfl⟩ := Option.map_eq_some_iff.1 h
    show n.coveredText = _
    rw [SourceNode.coveredText, hnodes n (List.mem_of_head? hn)]
    rfl
  · obtain rfl := Option.some.inj h
    rfl
  · cases h

theorem isPartOf_of_findingAt? {t : Template} {n : SourceNode} {found : Finding}
    (h : t.findingAt? n = some found) : ∀ c ∈ found.captures, c.2.IsPartOf n.source := by
  obtain ⟨m, hm, rfl⟩ := Option.map_eq_some_iff.1 h
  rw [CheckedPattern.preferred?_eq_head?] at hm
  have hwithin : ∀ c ∈ m.captures, ∀ node ∈ c.2, node.source = n.source := by
    have hbelow : ∀ parent : SourceNode, parent.source = n.source →
        ∀ c ∈ parent.children, c.node.source = n.source := by
      intro parent hparent c hc
      rw [SourceNode.source_of_mem_children hc, hparent]
    have hroot : ∀ c ∈ [(⟨.root, n⟩ : Child SourceNode)], c.node.source = n.source :=
      List.forall_mem_singleton.2 rfl
    exact @within_of_mem_matchesOf _ _ (fun node => node.source = n.source) hbelow _ _ hroot m
      (List.mem_of_head? hm)
  intro c hc
  obtain ⟨entry, hentry, hc⟩ := List.mem_filterMap.1 hc
  obtain ⟨value, hvalue, rfl⟩ := Option.map_eq_some_iff.1 hc
  exact isPartOf_of_captured? (hwithin entry hentry) hvalue

theorem mem_preOrder_of_mem_candidates {t : Template} {s : ParsedSource} {n : SourceNode}
    (h : n ∈ t.candidates s) : n ∈ s.root.preOrder := by
  unfold candidates at h
  split at h
  · rw [← ParsedSource.nodes_eq_preOrder]
    exact (List.mem_filter.1 h).1
  · cases h

theorem isPartOf_of_mem_findings {t : Template} {s : ParsedSource} {limit : Nat} {found : Finding}
    (h : found ∈ t.findings s limit) : ∀ c ∈ found.captures, c.2.IsPartOf s.text := by
  obtain ⟨n, hn, hfound⟩ := exists_findingAt?_of_mem_findings h
  have hsource : n.source = s.text :=
    SourceNode.source_of_mem_preOrder (mem_preOrder_of_mem_candidates hn)
  rw [← hsource]
  exact isPartOf_of_findingAt? hfound

end Template

theorem Parser.text_of_parse {parser : Parser} {language : Language} {text : String}
    {parsed : ParsedSource} (h : parser.parse language text = .ok parsed) : parsed.text = text := by
  unfold Parser.parse at h
  split at h
  · cases h
    rfl
  · cases h

namespace ReplacementRule

/-! ## The matches that are kept -/

/-- The first match begins at the offset or later, and each of the others at the end of the one
before it or later. -/
def InTurn : Nat → List Finding → Prop
  | _, [] => True
  | covered, found :: rest => covered ≤ found.range.start ∧ InTurn found.range.stop rest

theorem inTurn_outermostFrom (covered : Nat) (matched : List Finding) :
    InTurn covered (outermostFrom covered matched) := by
  fun_induction outermostFrom covered matched with
  | case1 => trivial
  | case2 _ _ _ _ ih => exact ih
  | case3 covered found rest h ih => exact ⟨Nat.le_of_not_lt h, ih⟩

theorem mem_of_mem_outermostFrom {covered : Nat} {matched : List Finding} {found : Finding}
    (h : found ∈ outermostFrom covered matched) : found ∈ matched := by
  fun_induction outermostFrom covered matched with
  | case1 => exact h
  | case2 _ _ _ _ ih => exact List.mem_cons_of_mem _ (ih h)
  | case3 _ _ _ _ ih =>
    rcases List.mem_cons.1 h with rfl | h
    · exact List.mem_cons_self
    · exact List.mem_cons_of_mem _ (ih h)

theorem InTurn.le_start {covered : Nat} {kept : List Finding} (h : InTurn covered kept)
    (hforward : ∀ found ∈ kept, found.range.start ≤ found.range.stop) :
    ∀ found ∈ kept, covered ≤ found.range.start := by
  induction kept generalizing covered with
  | nil => simp
  | cons first rest ih =>
    have hfirst : first.range.start ≤ first.range.stop := hforward first List.mem_cons_self
    intro found hfound
    rcases List.mem_cons.1 hfound with rfl | hfound
    · exact h.1
    · have hstop := ih h.2 (fun f hf => hforward f (List.mem_cons_of_mem _ hf)) found hfound
      have hcovered := h.1
      omega

theorem InTurn.pairwise {covered : Nat} {kept : List Finding} (h : InTurn covered kept)
    (hforward : ∀ found ∈ kept, found.range.start ≤ found.range.stop) :
    kept.Pairwise fun a b => a.range.start ≤ b.range.start ∧ a.range.stop ≤ b.range.start := by
  induction kept generalizing covered with
  | nil => exact .nil
  | cons first rest ih =>
    have hfirst : first.range.start ≤ first.range.stop := hforward first List.mem_cons_self
    have hrest : ∀ found ∈ rest, found.range.start ≤ found.range.stop :=
      fun found hfound => hforward found (List.mem_cons_of_mem _ hfound)
    refine List.pairwise_cons.2 ⟨?_, ih h.2 hrest⟩
    intro found hfound
    have hstop := h.2.le_start hrest found hfound
    exact ⟨Nat.le_trans hfirst hstop, hstop⟩

theorem InTurn.of_append {covered : Nat} {before kept : List Finding} {found : Finding}
    (h : InTurn covered (before ++ found :: kept)) : InTurn found.range.stop kept := by
  induction before generalizing covered with
  | nil => exact h.2
  | cons first rest ih => exact ih h.2

/-! ## Editing from the last match to the first -/

/-- The source from the offset on with the matches replaced: what lies before each of them, what
takes its place, and at last what lies after all of them. -/
def splicedFrom? (replacement source : String) : Nat → List Finding → Option String
  | offset, [] => Text.slice? source ⟨offset, source.utf8ByteSize⟩
  | offset, found :: rest => do
    let gap ← Text.slice? source ⟨offset, found.range.start⟩
    let tail ← splicedFrom? replacement source found.range.stop rest
    some (gap ++ Replacement.substitute replacement found ++ tail)

theorem replaceAll_cons (replacement : String) (found : Finding) (rest : List Finding)
    (text : String) : replaceAll replacement (found :: rest) text =
      (replaceAll replacement rest text).bind (replaceOne replacement found) := by
  rw [replaceAll, List.foldrM_cons]
  rfl

/-- What has been edited so far is the source up to the first of the matches done, and from there on
the splice. -/
theorem replaceAll_eq_append_spliced (replacement : String) {source before after : String}
    (hsource : source = before ++ after) {kept : List Finding}
    (hturn : InTurn before.utf8ByteSize kept)
    (haligned : ∀ found ∈ kept, Aligned source found.range) :
    ∃ tail, splicedFrom? replacement source before.utf8ByteSize kept = some tail ∧
      replaceAll replacement kept source = .ok (before ++ tail) := by
  induction kept generalizing before after with
  | nil =>
    refine ⟨after, ?_, by rw [← hsource]; rfl⟩
    refine Text.slice?_eq_some_iff.2 ⟨before, "", ?_, rfl, ?_⟩
    · rw [String.append_empty, hsource]
    · rw [hsource]
  | cons found rest ih =>
    obtain ⟨a, part, b, hs, hstart, hstop⟩ :=
      Text.aligned_iff_denotes.1 (haligned found List.mem_cons_self)
    have hle : before.utf8ByteSize ≤ a.utf8ByteSize := hstart ▸ hturn.1
    obtain ⟨gap, rfl, hafter⟩ := Text.exists_between
      (show before ++ after = a ++ (part ++ b) by rw [← hsource, hs, String.append_assoc]) hle
    have hrest := hturn.2
    rw [hstop] at hrest
    obtain ⟨tail, htail, hreplace⟩ :=
      ih hs hrest (fun f hf => haligned f (List.mem_cons_of_mem _ hf))
    refine ⟨gap ++ Replacement.substitute replacement found ++ tail, ?_, ?_⟩
    · have hgap : Text.slice? source ⟨before.utf8ByteSize, found.range.start⟩ = some gap := by
        refine Text.slice?_eq_some_iff.2 ⟨before, part ++ b, ?_, rfl, hstart⟩
        rw [hs, String.append_assoc]
      rw [splicedFrom?, hgap, hstop, htail]
      rfl
    · have hone : replaceOne replacement found (before ++ gap ++ part ++ tail) =
          .ok (before ++ gap ++ Replacement.substitute replacement found ++ tail) := by
        rw [replaceOne, Text.splice?_eq_some_iff.2
          ⟨before ++ gap, part, tail, ⟨rfl, hstart, hstop⟩, rfl⟩]
      rw [replaceAll_cons, hreplace]
      refine hone.trans ?_
      simp only [String.append_assoc]

/-- When a match is reached, the text up to its end is still that of the source. -/
theorem exists_replaceAll_eq_append (replacement : String) {source : String} {stop : Nat}
    {done : List Finding} (hturn : InTurn stop done)
    (haligned : ∀ found ∈ done, Aligned source found.range) :
    ∃ before after tail, source = before ++ after ∧
      (stop ≤ before.utf8ByteSize ∨ after = tail) ∧
      replaceAll replacement done source = .ok (before ++ tail) := by
  cases done with
  | nil =>
    refine ⟨source, "", "", ?_, .inr rfl, ?_⟩
    · rw [String.append_empty]
    · rw [String.append_empty]
      rfl
  | cons first rest =>
    obtain ⟨before, after, hsource, hstart⟩ := (haligned first List.mem_cons_self).start
    have hturn' : InTurn before.utf8ByteSize (first :: rest) := ⟨Nat.le_of_eq hstart.symm, hturn.2⟩
    obtain ⟨tail, -, hreplace⟩ :=
      replaceAll_eq_append_spliced replacement hsource hturn' haligned
    exact ⟨before, after, tail, hsource, .inl (hstart ▸ hturn.1), hreplace⟩

theorem replaceAll_eq_error (replacement : String) {source : String} {covered : Nat}
    {before after : List Finding} {found : Finding}
    (hturn : InTurn covered (before ++ found :: after))
    (hfound : ¬Aligned source found.range)
    (hafter : ∀ later ∈ after, Aligned source later.range) :
    replaceAll replacement (before ++ found :: after) source =
      .error (.splitsCharacter found.range) := by
  have hreached : replaceAll replacement (found :: after) source =
      .error (.splitsCharacter found.range) := by
    obtain ⟨untouched, rest, tail, hsource, hreach, hreplace⟩ :=
      exists_replaceAll_eq_append replacement hturn.of_append hafter
    have hedited : ¬Aligned (untouched ++ tail) found.range := by
      rcases hreach with hstop | rfl
      · intro h
        exact hfound (hsource ▸ (h.of_append hstop).append rest)
      · rwa [← hsource]
    rw [replaceAll_cons, hreplace]
    show replaceOne replacement found (untouched ++ tail) = _
    rw [replaceOne, Text.splice?_eq_none_of_not_aligned _ hedited]
  rw [replaceAll] at hreached ⊢
  rw [List.foldrM_append, hreached]
  rfl

/-- Of the matches that denote no part of the source, one is the last. -/
theorem exists_last_not_aligned {source : String} {kept : List Finding}
    (h : ∃ found ∈ kept, ¬Aligned source found.range) :
    ∃ before found after, kept = before ++ found :: after ∧ ¬Aligned source found.range ∧
      ∀ later ∈ after, Aligned source later.range := by
  induction kept with
  | nil => simp at h
  | cons first rest ih =>
    by_cases hrest : ∃ found ∈ rest, ¬Aligned source found.range
    · obtain ⟨before, found, after, rfl, hfound, hafter⟩ := ih hrest
      exact ⟨first :: before, found, after, rfl, hfound, hafter⟩
    · push Not at hrest
      obtain ⟨found, hfound, hnot⟩ := h
      rcases List.mem_cons.1 hfound with rfl | hfound
      · exact ⟨[], found, rest, rfl, hnot, hrest⟩
      · exact absurd (hrest found hfound) hnot

theorem splicedFrom?_nil (replacement source : String) :
    splicedFrom? replacement source 0 [] = some source :=
  Text.slice?_eq_some_iff.2 ⟨"", "", by simp, rfl, by simp⟩

theorem apply_eq {parser : Parser} {rule : ReplacementRule} {source : String}
    {parsed : ParsedSource} (limit : Nat)
    (hparse : parser.parse rule.template.language source = .ok parsed) :
    rule.apply parser rule.template.language limit source =
      (replaceAll rule.replacement (outermost (rule.template.findings parsed limit)) source).map
        fun text => ⟨text, (outermost (rule.template.findings parsed limit)).length⟩ := by
  rw [apply, if_neg (not_not_intro rfl), hparse]
  show (replaceAll _ _ source).bind _ = _
  cases replaceAll rule.replacement (outermost (rule.template.findings parsed limit)) source with
  | ok text => rfl
  | error fault => rfl

/-- **A rule splices the source.** The matches that it keeps lie one after the other, and what they
capture is text of the source. When each of them denotes a part of the source, the result is the
source with the replacements in place of those parts; otherwise the rule fails with the last of the
matches that do not. -/
theorem apply_splices_source {parser : Parser} {rule : ReplacementRule} {source : String}
    {limit : Nat} {parsed : ParsedSource}
    (hparse : parser.parse rule.template.language source = .ok parsed) :
    let kept := outermost (rule.template.findings parsed limit)
    (∀ found ∈ kept, ∀ c ∈ found.captures,
      c.2.text = (Text.slice? source c.2.range).getD "") ∧
    ((∀ found ∈ kept, Aligned source found.range) →
      kept.Pairwise (fun a b =>
        a.range.start ≤ b.range.start ∧ a.range.stop ≤ b.range.start) ∧
      ∃ text, splicedFrom? rule.replacement source 0 kept = some text ∧
        rule.apply parser rule.template.language limit source = .ok ⟨text, kept.length⟩ ∧
        (kept.length = 0 → text = source)) ∧
    ((∃ found ∈ kept, ¬Aligned source found.range) →
      ∃ before found after, kept = before ++ found :: after ∧
        ¬Aligned source found.range ∧ (∀ later ∈ after, Aligned source later.range) ∧
        rule.apply parser rule.template.language limit source =
          .error (.splitsCharacter found.range)) := by
  intro kept
  have hturn : InTurn 0 kept := inTurn_outermostFrom 0 _
  have happly := apply_eq limit hparse
  refine ⟨?_, ?_, ?_⟩
  · intro found hfound
    have hpart := Template.isPartOf_of_mem_findings (mem_of_mem_outermostFrom hfound)
    rwa [Parser.text_of_parse hparse] at hpart
  · intro haligned
    refine ⟨hturn.pairwise fun found hfound => (haligned found hfound).start_le_stop, ?_⟩
    obtain ⟨tail, htail, hreplace⟩ := replaceAll_eq_append_spliced rule.replacement
      (show source = "" ++ source from String.empty_append.symm) hturn haligned
    refine ⟨tail, htail, ?_, ?_⟩
    · rw [happly, hreplace, String.empty_append]
      rfl
    · intro hnone
      rw [List.eq_nil_of_length_eq_zero hnone] at htail
      exact (Option.some.inj ((splicedFrom?_nil _ _).symm.trans htail)).symm
  · intro hsplit
    obtain ⟨before, found, after, hkept, hfound, hafter⟩ := exists_last_not_aligned hsplit
    refine ⟨before, found, after, hkept, hfound, hafter, ?_⟩
    rw [happly]
    show (replaceAll rule.replacement kept source).map _ = _
    rw [hkept] at hturn ⊢
    rw [replaceAll_eq_error rule.replacement hturn hfound hafter]
    rfl

/-- A letter of two bytes on either side of an equals sign. -/
def twoLetters : ParsedSource where
  language := .rust
  text := "é=é"
  tree :=
    let token kind named start stop : ParseTree :=
      .node ⟨kind, named, false, false, false, ⟨start, stop⟩, none⟩ []
    .node ⟨"source_file", true, false, false, false, ⟨0, 5⟩, none⟩
      [token "letter" true 0 2, token "=" false 2 3, token "letter" true 3 5]
  hasError := false

def callOnLetter : ReplacementRule where
  template :=
    { source := "$X", language := .rust, metavariables := [⟨"X", .single, 0⟩]
      pattern := ⟨[.capture "X" (.literal "letter" none [])], ["X"], rfl⟩ }
  replacement := "f($X)"

theorem apply_splices_two_letters :
    callOnLetter.apply (fun _ _ => some ⟨twoLetters.tree, false⟩) .rust 10 twoLetters.text =
      .ok ⟨"f(é)=f(é)", 2⟩ := by
  have hranges : (outermost (callOnLetter.template.findings twoLetters 10)).map (·.range) =
      [⟨0, 2⟩, ⟨3, 5⟩] := by decide +kernel
  obtain ⟨-, hok, -⟩ := @apply_splices_source (fun _ _ => some ⟨twoLetters.tree, false⟩)
    callOnLetter twoLetters.text 10 twoLetters rfl
  have haligned : ∀ found ∈ outermost (callOnLetter.template.findings twoLetters 10),
      Aligned twoLetters.text found.range := by
    intro found hfound
    have hrange := List.mem_map_of_mem (f := fun found : Finding => found.range) hfound
    rw [hranges, List.mem_pair] at hrange
    rcases hrange with hrange | hrange
    · rw [hrange]
      exact Text.Denotes.aligned ⟨show "é=é" = "" ++ "é" ++ "=é" by decide, by decide, by decide⟩
    · rw [hrange]
      exact Text.Denotes.aligned ⟨show "é=é" = "é=" ++ "é" ++ "" by decide, by decide, by decide⟩
  obtain ⟨-, text, htext, happly, -⟩ := hok haligned
  have hspliced : splicedFrom? callOnLetter.replacement twoLetters.text 0
      (outermost (callOnLetter.template.findings twoLetters 10)) = some "f(é)=f(é)" := by
    decide +kernel
  have hlength := congrArg List.length hranges
  rw [List.length_map] at hlength
  refine happly.trans ?_
  rw [hlength, Option.some.inj (htext.symm.trans hspliced)]
  rfl

end ReplacementRule
end StructuralSearch
