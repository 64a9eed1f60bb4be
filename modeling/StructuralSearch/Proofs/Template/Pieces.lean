import StructuralSearch.Proofs.Replacing.References
import StructuralSearch.Proofs.Replacing.Splice
import StructuralSearch.Proofs.Source.Nesting
import StructuralSearch.Proofs.Template.Binders
import StructuralSearch.Proofs.Template.Placeholders

/-!
# Captures are pieces of the match

What a run captures is cut out of the source from the first of its nodes to the last. That is right
when the nodes are siblings next to each other, and they are: no name is bound by two metavariables,
and each of them takes siblings in one stretch.
-/
namespace StructuralSearch

/-- The kind of metavariable that captures the value. -/
def Captured.kind : Captured → Template.MetavariableKind
  | single _ => .single
  | run _ _ _ => .multiple

namespace Template

/-! ## Declared metavariables -/

/-- The placeholders read are metavariables of the text and of the same kinds, and no run is read
twice. -/
structure ReadAsDeclared (t : Template) (found : List (String × MetavariableKind)) : Prop where
  declared : ∀ d ∈ found, ∃ m ∈ t.metavariables, m.name = d.1 ∧ m.kind = d.2
  oneRun : ∀ name, name ≠ wildcard → found.count (name, .multiple) ≤ 1

theorem one_lt_countP {α : Type} {p : α → Bool} {as : List α} {a b : α} (ha : a ∈ as) (hb : b ∈ as)
    (hpa : p a) (hpb : p b) (hne : a ≠ b) : 1 < as.countP p := by
  have hnodup : [a, b].Nodup := by simp [hne]
  have hsub : [a, b] ⊆ as.filter p := by simp [ha, hb, hpa, hpb]
  rw [List.countP_eq_length_filter]
  exact hnodup.length_le_of_subset hsub

theorem repeatedRun?_of_withPlaceholders {source : String} {found : List Metavariable}
    (h : (withPlaceholders source).map (·.2) = .ok found) : repeatedRun? found = none := by
  cases hcode : withPlaceholders source with
  | error fault =>
    rw [hcode] at h
    cases h
  | ok code =>
    rw [hcode] at h
    cases h
    exact (withPlaceholders_eq_ok_iff.1 hcode).2.2.2

/-- In the text of a template no run has the name of another metavariable. -/
theorem kind_ne_multiple {found : List Metavariable} (h : repeatedRun? found = none)
    {m other : Metavariable} (hm : m ∈ found) (hother : other ∈ found)
    (hname : other.name = m.name) (hnamed : m.name ≠ wildcard) (hne : m ≠ other) :
    m.kind ≠ .multiple := by
  intro hmultiple
  have hone := repeatedRun?_eq_none_iff.1 h m hm hmultiple hnamed
  have htwo : 1 < found.countP (·.name == m.name) :=
    one_lt_countP hm hother (beq_self_eq_true _) (beq_iff_eq.2 hname) hne
  exact Nat.not_lt.2 hone htwo

theorem MetavariableKind.eq_single {kind : MetavariableKind} (h : kind ≠ .multiple) :
    kind = .single := by
  cases kind with
  | single => rfl
  | multiple => exact absurd rfl h

theorem kindOf?_of_mem {t : Template} (h : repeatedRun? t.metavariables = none) {m : Metavariable}
    (hm : m ∈ t.metavariables) (hnamed : m.name ≠ wildcard) :
    t.kindOf? m.name = some m.kind := by
  obtain ⟨kind, hkind⟩ := exists_kindOf? (List.mem_map_of_mem hm) hnamed
  rw [hkind]
  obtain ⟨first, hfirst, rfl⟩ := Option.map_eq_some_iff.1 hkind
  have hmem := List.mem_of_find?_eq_some hfirst
  have hname : first.name = m.name := by
    have hfound := List.find?_some hfirst
    rw [Bool.and_eq_true, beq_iff_eq] at hfound
    exact hfound.1
  by_cases hne : m = first
  · rw [hne]
  · have hone := kind_ne_multiple h hm hmem hname hnamed hne
    have hother := kind_ne_multiple h hmem hm hname.symm (hname ▸ hnamed) (Ne.symm hne)
    rw [MetavariableKind.eq_single hone, MetavariableKind.eq_single hother]

theorem ReadAsDeclared.kindOf? {t : Template} {found : List (String × MetavariableKind)}
    (h : ReadAsDeclared t found) (hruns : repeatedRun? t.metavariables = none)
    {d : String × MetavariableKind} (hd : d ∈ found) (hnamed : d.1 ≠ wildcard) :
    t.kindOf? d.1 = some d.2 := by
  obtain ⟨m, hm, hname, hkind⟩ := h.declared d hd
  rw [← hname, ← hkind]
  exact kindOf?_of_mem hruns hm (hname ▸ hnamed)

theorem ReadAsDeclared.unambiguous {t : Template} {found : List (String × MetavariableKind)}
    (h : ReadAsDeclared t found) (hruns : repeatedRun? t.metavariables = none) :
    Unambiguous found where
  oneKind name hnamed hsingle hmultiple := by
    have hkind := h.kindOf? hruns hsingle hnamed
    rw [h.kindOf? hruns hmultiple hnamed] at hkind
    cases hkind
  oneRun := h.oneRun

end Template

/-! ## Siblings next to each other -/

namespace SourceNode

theorem sublist_below {n : SourceNode} {nodes : List SourceNode}
    (h : nodes <:+: n.children.map (·.node)) : nodes.Sublist n.below := by
  rw [map_node_children] at h
  exact h.sublist.trans List.filter_sublist

/-- The nodes are siblings next to each other, without comments, somewhere below a node. -/
def StandTogether (matched : SourceNode) (nodes : List SourceNode) : Prop :=
  ∃ parent, Within matched parent ∧ nodes <:+: parent.children.map (·.node)

theorem isInfix_map_between (siblings : Array (Child SourceNode)) (i j : Nat) :
    (between siblings i j).map (·.node) <:+: siblings.toList.map (·.node) := by
  have hfrom : siblings.toList.drop i <:+ siblings.toList := List.drop_suffix i _
  have hto : (siblings.toList.drop i).take (j - i) <+: siblings.toList.drop i :=
    List.take_prefix (j - i) _
  rw [between, Array.toList_extract]
  exact (hto.isInfix.trans hfrom.isInfix).map _

/-- First and last of nodes in order are the same, or in order. -/
theorem head_eq_or_of_pairwise {α : Type} {R : α → α → Prop} {as : List α} (h : as.Pairwise R)
    {first last : α} (hfirst : as.head? = some first) (hlast : as.getLast? = some last) :
    first = last ∨ R first last := by
  cases as with
  | nil => cases hfirst
  | cons a rest =>
    obtain rfl := Option.some.inj hfirst
    cases rest with
    | nil => exact .inl (Option.some.inj hlast)
    | cons b rest =>
      rw [List.getLast?_cons_cons] at hlast
      exact .inr ((List.pairwise_cons.1 h).1 last (List.mem_of_getLast? hlast))

theorem StandTogether.within {matched : SourceNode} {nodes : List SourceNode}
    (h : matched.StandTogether nodes) : ∀ n ∈ nodes, Within matched n := by
  obtain ⟨parent, hparent, hstretch⟩ := h
  exact fun n hn => hparent.tail ((sublist_below hstretch).subset hn)

/-- Where ranges nest, siblings next to each other cover one stretch of what they lie in. -/
theorem StandTogether.range {matched : SourceNode} {nodes : List SourceNode}
    (h : matched.StandTogether nodes) (hranges : ∀ n, Within matched n → n.Encloses)
    {first last : SourceNode} (hfirst : nodes.head? = some first)
    (hlast : nodes.getLast? = some last) :
    first.range.start ≤ last.range.stop ∧ matched.range.start ≤ first.range.start ∧
      last.range.stop ≤ matched.range.stop := by
  have hfirst' := h.within first (List.mem_of_head? hfirst)
  have hlast' := h.within last (List.mem_of_getLast? hlast)
  refine ⟨?_, (hfirst'.inside hranges).1, (hlast'.inside hranges).2⟩
  have hforward := (hranges first hfirst').forward
  obtain ⟨parent, hparent, hstretch⟩ := h
  have horder := (hranges parent hparent).inOrder.sublist (sublist_below hstretch)
  rcases head_eq_or_of_pairwise horder hfirst hlast with rfl | horder
  · exact hforward
  · exact Nat.le_trans hforward (Nat.le_trans horder (hranges last hlast').forward)

end SourceNode

namespace Template

open SourceNode (target Within StandTogether)

/-! ## What a match captures -/

/-- Siblings next to each other, or the whole match when the template is one metavariable. -/
def Site (root matched : SourceNode) (nodes : List SourceNode) : Prop :=
  matched.StandTogether nodes ∨ root.metavariable? ≠ none ∧ nodes = [matched]

theorem within_of_site {root matched n : SourceNode} (h : Site root matched [n]) :
    Within matched n := by
  rcases h with htogether | ⟨-, hmatched⟩
  · exact htogether.within n (List.mem_singleton_self n)
  · rw [List.singleton_inj.1 hmatched]
    exact .refl

/-- The preferred match at a node comes from a log with one piece for each metavariable that
binds. -/
theorem exists_growsBy_of_findingAt? {t : Template} {root n : SourceNode} {found : Finding}
    (hpattern : CheckedPattern.ofPattern (toPattern [] root .root).1 = .ok t.pattern)
    (h : t.findingAt? n = some found) :
    ∃ log, t.pattern.preferred? target n = some (.ofLog log) ∧
      found = t.report n (.ofLog log) ∧
      GrowsBy (Site root n) (binders [] (decoded root)) .empty log := by
  obtain ⟨first, hfirst, hindex, hresult, rfl⟩ := exists_outcome_of_findingAt? hpattern h
  refine ⟨first.log, hresult, rfl, ?_⟩
  cases hroot : root.metavariable? with
  | none =>
    have hbelow : ∀ k, Within n k → ∀ c ∈ k.children, Within n c.node :=
      fun k hk c hc => hk.tail (SourceNode.mem_below_of_mem_children hc)
    have hsite : ∀ k, Within n k → ∀ i j,
        Site root n ((between k.children.toArray i j).map (·.node)) :=
      fun k hk i j => .inl ⟨k, hk, SourceNode.isInfix_map_between k.children.toArray i j⟩
    refine (growsBy_toPattern hbelow hsite).1 [] root .root .root _ 0 .empty ?_ ?_ first hfirst
    · intro c hc
      obtain rfl := List.mem_singleton.1 (List.mem_toArray.1 hc)
      exact .refl
    · exact fun hsome => absurd hroot hsome
  | some d =>
    rw [toPattern_of_found hroot] at hfirst
    rw [decoded_of_found hroot]
    refine growsBy_metavariablePattern hfirst (.inr ⟨?_, ?_⟩)
    · rw [hroot]
      exact Option.some_ne_none d
    · have hall := between_all [(⟨.root, n⟩ : Child SourceNode)]
      rw [hindex]
      exact congrArg (List.map (·.node)) hall

/-- A run that is not empty is cut out of the source, from its first node to its last. -/
structure CutOut (source : String) (matched first last : SourceNode) (range : Text.ByteRange)
    (text : String) : Prop where
  range_eq : range = ⟨first.range.start, last.range.stop⟩
  forward : range.start ≤ range.stop
  inside : matched.range.start ≤ range.start ∧ range.stop ≤ matched.range.stop
  text_eq : text = (Text.slice? source range).getD ""
  slice_eq : Text.IsBoundary source range.start → Text.IsBoundary source range.stop →
    Text.slice? source range = some text

theorem cutOut_ofRun {source : String} {matched : SourceNode} {nodes : List SourceNode}
    {first last : SourceNode} (hfirst : nodes.head? = some first)
    (hlast : nodes.getLast? = some last) (hforward : first.range.start ≤ last.range.stop)
    (hstart : matched.range.start ≤ first.range.start)
    (hstop : last.range.stop ≤ matched.range.stop) :
    CutOut source matched first last (Captured.ofRun source nodes).range
      (Captured.ofRun source nodes).text := by
  have hrange : (Captured.ofRun source nodes).range = ⟨first.range.start, last.range.stop⟩ := by
    rw [Captured.ofRun, hfirst, hlast]
    rfl
  have htext : (Captured.ofRun source nodes).text =
      (Text.slice? source (Captured.ofRun source nodes).range).getD "" := rfl
  rw [hrange] at htext ⊢
  refine ⟨rfl, hforward, ⟨hstart, hstop⟩, htext, fun hleft hright => ?_⟩
  obtain ⟨before, part, after, hdenotes⟩ :=
    Text.aligned_iff_denotes.1 ⟨hforward, hleft, hright⟩
  have hslice := Text.slice?_eq_some_iff.2 ⟨before, after, hdenotes⟩
  rw [htext, hslice]
  rfl

/-- What is captured under a name to which a match has bound nodes. -/
def IsPieceOf (source : String) (root matched : SourceNode) (name : String)
    (bound : List SourceNode) : Captured → Prop
  | .single n => bound = [n] ∧ Within matched n ∧ matched.range.start ≤ n.range.start ∧
      n.range.stop ≤ matched.range.stop
  | .run nodes range text => bound = nodes ∧
      (matched.StandTogether nodes ∨
        root.metavariable? = some (name, .multiple) ∧ nodes = [matched]) ∧
      (nodes = [] → range = ⟨0, 0⟩ ∧ text = "") ∧
      ∀ first last, nodes.head? = some first → nodes.getLast? = some last →
        CutOut source matched first last range text

/-- Whether siblings or the whole match, nodes cover one stretch of it. -/
theorem range_of_site {root matched : SourceNode} {nodes : List SourceNode}
    (h : Site root matched nodes) (hranges : ∀ n, Within matched n → n.Encloses)
    {first last : SourceNode} (hfirst : nodes.head? = some first)
    (hlast : nodes.getLast? = some last) :
    first.range.start ≤ last.range.stop ∧ matched.range.start ≤ first.range.start ∧
      last.range.stop ≤ matched.range.stop := by
  rcases h with htogether | ⟨-, rfl⟩
  · exact htogether.range hranges hfirst hlast
  · obtain rfl := Option.some.inj hfirst
    obtain rfl := Option.some.inj hlast
    exact ⟨(hranges _ .refl).forward, Nat.le_refl _, Nat.le_refl _⟩

theorem slice?_nothing (source : String) : Text.slice? source ⟨0, 0⟩ = some "" :=
  Text.slice?_eq_some_iff.2 ⟨"", source, by simp, rfl, by simp⟩

/-- A name of the template is captured with the piece that it is bound to. -/
theorem exists_captured?_of_fills {t : Template} {root matched : SourceNode}
    {bound : List SourceNode} {d : String × MetavariableKind} {p : Piece}
    (hkind : t.kindOf? d.1 = some d.2) (hd : d ∈ decoded root)
    (hfills : Fills (Site root matched) d p) (hbound : bound = p.nodes)
    (hranges : ∀ n, Within matched n → n.Encloses) :
    ∃ value, t.captured? matched.source d.1 bound = some value ∧ value.kind = d.2 ∧
      IsPieceOf matched.source root matched d.1 bound value := by
  obtain ⟨name, kind⟩ := d
  subst hbound
  cases kind with
  | single =>
    obtain ⟨n, hn⟩ := hfills.single rfl
    have hwithin : Within matched n := within_of_site (hn ▸ hfills.site)
    refine ⟨.single n, ?_, rfl, hn, hwithin, hwithin.inside hranges⟩
    rw [captured?, hkind, hn]
    rfl
  | multiple =>
    refine ⟨.ofRun matched.source p.nodes, ?_, rfl, rfl, ?_, ?_, ?_⟩
    · rw [captured?, hkind]
    · refine hfills.site.imp_right ?_
      rintro ⟨hroot, hnodes⟩
      obtain ⟨found, hfound⟩ := Option.ne_none_iff_exists'.1 hroot
      rw [decoded_of_found hfound, List.mem_singleton] at hd
      exact ⟨hd ▸ hfound, hnodes⟩
    · intro hnone
      rw [hnone]
      exact ⟨rfl, congrArg (Option.getD · "") (slice?_nothing matched.source)⟩
    · intro first last hfirst hlast
      obtain ⟨hforward, hstart, hstop⟩ := range_of_site hfills.site hranges hfirst hlast
      exact cutOut_ofRun hfirst hlast hforward hstart hstop

/-- **Captures are well-formed pieces of the match.** Let the placeholders of a template that
compiles be read from its tree as its text declares them, and no run twice, and let the ranges of a
source nest. Then each match captures every name of the pattern once, and what it captures is of the
kind of that name. A single node is all that the result binds to the name, and lies within the
match. A run is a stretch of siblings below the match, or the match itself when the template is that
run alone; where it holds nodes, it is cut out of the source from the first to the last. -/
theorem captures_are_pieces {parser : Parser} {language : Language} {source : String}
    {t : Template} (hcompile : compile parser language source = .ok t) :
    ∃ root, denoted? parser language source = some root ∧
      (ReadAsDeclared t (decoded root) → ∀ s : ParsedSource,
        (∀ n ∈ s.root.preOrder, n.Encloses) → ∀ limit, ∀ found ∈ t.findings s limit,
          ∃ result, t.pattern.preferred? target found.node = some result ∧
            (found.captures.map (·.1)).Nodup ∧
            (found.captures.map (·.1)).Perm t.pattern.captures ∧
            ∀ c ∈ found.captures, t.kindOf? c.1 = some c.2.kind ∧
              IsPieceOf s.text root found.node c.1 (result.get c.1) c.2) := by
  obtain ⟨root, hroot, hpattern, htext, -, -⟩ := compile_eq_ok_iff.1 hcompile
  refine ⟨root, hroot, ?_⟩
  intro hread s hranges limit found hfound
  obtain ⟨n, hn, hfound⟩ := exists_findingAt?_of_mem_findings hfound
  have hn := mem_preOrder_of_mem_candidates hn
  obtain ⟨log, hresult, rfl, hgrows⟩ := exists_growsBy_of_findingAt? hpattern hfound
  have hruns := repeatedRun?_of_withPlaceholders htext
  have hnodup := (nodup_names_binders (hread.unambiguous hruns) (List.forall_mem_nil _)).1
  have hsource : n.source = s.text := SourceNode.source_of_mem_preOrder hn
  have hinside : ∀ m, Within n m → m.Encloses := fun m hm =>
    hranges m (SourceNode.mem_preOrder_iff.2 ((SourceNode.mem_preOrder_iff.1 hn).trans hm))
  have hpieces : ∀ name ∈ log.names, ∃ value,
      t.captured? n.source name (log.boundTo name) = some value ∧
        t.kindOf? name = some value.kind ∧
        IsPieceOf n.source root n name (log.boundTo name) value := by
    intro name hname
    obtain ⟨d, hd, rfl⟩ := List.mem_map.1 (hgrows.mem_names.1 hname)
    obtain ⟨p, hfills, hbound⟩ := hgrows.exists_piece hnodup hd
    have hdecoded := mem_of_mem_binders hd
    have hnamed := ((mem_names_binders List.not_mem_nil).1 (List.mem_map_of_mem hd)).1
    have hkind := hread.kindOf? hruns hdecoded hnamed
    obtain ⟨value, hvalue, hvaluekind, hpiece⟩ :=
      exists_captured?_of_fills hkind hdecoded hfills hbound hinside
    exact ⟨value, hvalue, hvaluekind ▸ hkind, hpiece⟩
  have hnames : (t.report n (.ofLog log)).captures.map (·.1) = log.names := by
    rw [map_name_captures_report, List.filter_eq_self]
    intro name hname
    obtain ⟨value, hvalue, -⟩ := hpieces name hname
    rw [hvalue]
    rfl
  refine ⟨.ofLog log, hresult, ?_, ?_, ?_⟩
  · rw [hnames]
    exact log.nodup_names
  · rw [hnames, captures_toPattern hpattern]
    refine (List.perm_ext_iff_of_nodup log.nodup_names (nodup_eraseDups _)).2 fun name => ?_
    rw [hgrows.mem_names, List.mem_eraseDups]
  · intro c hc
    obtain ⟨hname, hvalue⟩ := mem_captures_report.1 hc
    obtain ⟨value, hvalue', hkind, hpiece⟩ := hpieces c.1 hname
    rw [Option.some.inj (hvalue.symm.trans hvalue'), ← hsource, Match.get_ofLog]
    exact ⟨hkind, hpiece⟩

/-! ## The items of a list -/

/-- The code of a template for a list with any items. -/
def listCode : String := "[__HEDDLE_METAVARS_XS__]"

def listTree : ParseTree :=
  .node ⟨"module", true, false, false, false, ⟨0, 24⟩, none⟩
    [.node ⟨"expression_statement", true, false, false, false, ⟨0, 24⟩, none⟩
      [.node ⟨"list", true, false, false, false, ⟨0, 24⟩, none⟩
        [.node ⟨"[", false, false, false, false, ⟨0, 1⟩, none⟩ [],
          .node ⟨"identifier", true, false, false, false, ⟨1, 23⟩, none⟩ [],
          .node ⟨"]", false, false, false, false, ⟨23, 24⟩, none⟩ []]]]

def listParser : Parser :=
  fun _ text => if text = listCode then some ⟨listTree, false⟩ else none

/-- The list that the code denotes. -/
def listRoot : SourceNode :=
  let statement := listTree.children.head!
  ⟨listCode, [(0, statement), (0, listTree)], statement.children.head!⟩

def anyList : Template where
  source := "[$$$XS]"
  language := .python
  metavariables := [⟨"XS", .multiple, 1⟩]
  pattern := ⟨[.literal "list" none [(.child, .literal "[" (some "[") []),
    (.child, .capture "XS" (.star (.any none))), (.child, .literal "]" (some "]") [])]], ["XS"], rfl⟩

theorem denoted?_listRoot : denoted? listParser .python "[$$$XS]" = some listRoot := by
  have hcode : withPlaceholders "[$$$XS]" = .ok (listCode, anyList.metavariables) := by
    decide +kernel
  have hparse : listParser .python listCode = some ⟨listTree, false⟩ := rfl
  rw [denoted?_of_parse hcode hparse]
  show SourceNode.peel _ = _
  rw [SourceNode.peel_of_soleNamed? (show _ = some listRoot from rfl) (by decide +kernel),
    SourceNode.peel_of_not_onlyTerminates (by decide +kernel)]

theorem decoded_listRoot : decoded listRoot = [("XS", .multiple)] := by
  decide +kernel

theorem toPattern_listRoot :
    [(toPattern [] listRoot .root).1] = anyList.pattern.elements := by
  have hlist : SourceNode.metavariable? listRoot = none := by decide +kernel
  have hbracket : ∀ i ∈ [0, 2], SourceNode.metavariable? (nodeAt listRoot [i]) = none := by
    decide +kernel
  have hitems : SourceNode.metavariable? (nodeAt listRoot [1]) = some ("XS", .multiple) := by
    decide +kernel
  have hchildren : listRoot.children = [⟨.child, nodeAt listRoot [0]⟩,
    ⟨.child, nodeAt listRoot [1]⟩, ⟨.child, nodeAt listRoot [2]⟩] := rfl
  have hleaves : ∀ i ∈ [0, 2], (nodeAt listRoot [i]).children = [] := by
    simp only [List.forall_mem_cons]
    exact ⟨rfl, rfl, nofun⟩
  have htexts : listRoot.ownText? = none ∧ (nodeAt listRoot [0]).ownText? = some "[" ∧
      (nodeAt listRoot [2]).ownText? = some "]" := by decide +kernel
  simp only [toPattern_of_literal hlist, hchildren, toSlots_cons,
    toPattern_of_literal (hbracket 0 (by decide)), toPattern_of_found hitems,
    toPattern_of_literal (hbracket 2 (by decide)), hleaves 0 (by decide), hleaves 2 (by decide),
    toSlots_nil, htexts]
  rfl

theorem compile_anyList : compile listParser .python "[$$$XS]" = .ok anyList := by
  refine compile_eq_ok_iff.2 ⟨listRoot, denoted?_listRoot, ?_, by decide +kernel, rfl, rfl⟩
  exact CheckedPattern.ofPattern_eq_ok_iff.2 toPattern_listRoot.symm

/-- A list of two names. -/
def twoNames : ParsedSource where
  language := .python
  text := "[a, b]"
  tree := .node ⟨"module", true, false, false, false, ⟨0, 6⟩, none⟩
    [.node ⟨"expression_statement", true, false, false, false, ⟨0, 6⟩, none⟩
      [.node ⟨"list", true, false, false, false, ⟨0, 6⟩, none⟩
        [.node ⟨"[", false, false, false, false, ⟨0, 1⟩, none⟩ [],
          .node ⟨"identifier", true, false, false, false, ⟨1, 2⟩, none⟩ [],
          .node ⟨",", false, false, false, false, ⟨2, 3⟩, none⟩ [],
          .node ⟨"identifier", true, false, false, false, ⟨4, 5⟩, none⟩ [],
          .node ⟨"]", false, false, false, false, ⟨5, 6⟩, none⟩ []]]]
  hasError := false

theorem anyList_readAsDeclared : ReadAsDeclared anyList (decoded listRoot) := by
  rw [decoded_listRoot]
  refine ⟨?_, ?_⟩
  · exact List.forall_mem_singleton.2 ⟨⟨"XS", .multiple, 1⟩, List.mem_singleton_self _, rfl, rfl⟩
  · intro name _
    exact Nat.le_trans List.count_le_length (Nat.le_refl 1)

/-- The items of a list are captured with what stands between them. -/
theorem anyList_captures_items :
    ∃ found ∈ anyList.findings twoNames 1, ∃ result c, c ∈ found.captures ∧
      c.2.text = "a, b" ∧ found.captures.map (·.1) = ["XS"] ∧
      IsPieceOf twoNames.text listRoot found.node c.1 (Match.get result c.1) c.2 := by
  obtain ⟨root, hroot, hpieces⟩ := captures_are_pieces compile_anyList
  cases hroot.symm.trans denoted?_listRoot
  have hsome : (anyList.findings twoNames 1).any fun found =>
      found.captures.any fun c => c.2.text == "a, b" := by decide +kernel
  obtain ⟨found, hfound, hcaptured⟩ := List.any_eq_true.1 hsome
  obtain ⟨c, hc, htext⟩ := List.any_eq_true.1 hcaptured
  obtain ⟨result, -, -, hnames, hcaptures⟩ := hpieces anyList_readAsDeclared twoNames
    (by decide +kernel) 1 found hfound
  exact ⟨found, hfound, result, c, hc, beq_iff_eq.1 htext, List.perm_singleton.1 hnames,
    (hcaptures c hc).2⟩

end Template
end StructuralSearch
