import StructuralSearch.Proofs.Matching.Derivation
import StructuralSearch.Proofs.Template.Conversion

/-!
# Filled templates

Filling a template puts, in the place of each metavariable, the leaf texts of what it stands for.
Parts of a template account for nodes when the leaf texts of the nodes are those of the filled
parts, place by place. Only a part that holds nothing but runs, all bound to nothing, differs: it
also fits a node without children, whose text is not looked at and stands in the place of the part.
-/
namespace StructuralSearch

namespace SourceNode

/-- The node and all nodes below it, parents before children, without comments. -/
def inView (n : SourceNode) : List SourceNode :=
  n :: n.children.attach.flatMap fun c => inView c.1.node
termination_by n.tree.size
decreasing_by exact size_lt_of_mem_children c.2

def leafTexts (n : SourceNode) : List String :=
  n.inView.filterMap ownText?

theorem inView_eq (n : SourceNode) :
    n.inView = n :: n.children.flatMap fun c => c.node.inView := by
  rw [inView, flatMap_attach n.children fun c => c.node.inView]

theorem mem_inView_self (n : SourceNode) : n ∈ n.inView := by
  rw [inView]
  exact List.mem_cons_self

theorem mem_inView_of_mem_children {root n : SourceNode} (h : n ∈ root.inView)
    {c : Child SourceNode} (hc : c ∈ n.children) : c.node ∈ root.inView := by
  fun_induction inView root with
  | case1 root ih =>
    rcases List.mem_cons.1 h with rfl | h
    · refine List.mem_cons_of_mem _ (List.mem_flatMap.2 ⟨⟨c, hc⟩, List.mem_attach _ _, ?_⟩)
      exact mem_inView_self c.node
    · obtain ⟨child, hchild, hn⟩ := List.mem_flatMap.1 h
      exact List.mem_cons_of_mem _ (List.mem_flatMap.2 ⟨child, hchild, ih child hn⟩)

theorem leafTexts_eq (n : SourceNode) :
    n.leafTexts = n.ownText?.toList ++ n.children.flatMap fun c => c.node.leafTexts := by
  rw [leafTexts, inView_eq, List.filterMap_cons, List.filterMap_flatMap]
  cases n.ownText? with
  | none => rfl
  | some text => rfl

/-- A node with a text of its own has no children. -/
theorem children_eq_nil_of_ownText? {n : SourceNode} {text : String}
    (h : n.ownText? = some text) : n.children = [] := by
  unfold ownText? at h
  split at h
  · rename_i hempty
    rw [children, below, List.isEmpty_iff.1 hempty]
    rfl
  · cases h

end SourceNode

namespace Template

/-- The leaf texts of a template, with those of the nodes that are bound to a name in the place of
its metavariable. -/
def filled (bound : String → List SourceNode) (n : SourceNode) : List String :=
  match n.metavariable? with
  | some (name, _) => (bound name).flatMap SourceNode.leafTexts
  | none => n.ownText?.toList ++ n.children.attach.flatMap fun c => filled bound c.1.node
termination_by n.tree.size
decreasing_by exact SourceNode.size_lt_of_mem_children c.2

theorem mem_decoded_of_found {parts : List SourceNode} {part : SourceNode}
    {found : String × MetavariableKind} (hpart : part ∈ parts)
    (h : part.metavariable? = some found) : found ∈ parts.flatMap decoded := by
  refine List.mem_flatMap.2 ⟨part, hpart, ?_⟩
  rw [decoded_of_found h]
  exact List.mem_singleton_self found

theorem filled_of_found {bound : String → List SourceNode} {n : SourceNode} {name : String}
    {kind : MetavariableKind} (h : n.metavariable? = some (name, kind)) :
    filled bound n = (bound name).flatMap SourceNode.leafTexts := by
  rw [filled, h]

theorem filled_of_literal {bound : String → List SourceNode} {n : SourceNode}
    (h : n.metavariable? = none) :
    filled bound n = n.ownText?.toList ++ n.children.flatMap fun c => filled bound c.node := by
  rw [filled, h]
  exact congrArg _ (flatMap_attach n.children fun c => filled bound c.node)

/-- A part of a template that holds nothing but runs, all of which are bound to nothing. -/
structure Emptied (bound : String → List SourceNode) (n : SourceNode) : Prop where
  literal : n.metavariable? = none
  nonempty : n.children ≠ []
  runs : ∀ c ∈ n.children, ∃ name, c.node.metavariable? = some (name, .multiple) ∧ bound name = []

/-- The text of a node without children in the target, of the same kind as an emptied part of the
template. -/
def Spare (template target : SourceNode) (bound : String → List SourceNode) (text : String) :
    Prop :=
  ∃ n ∈ target.inView, n.ownText? = some text ∧
    ∃ part ∈ template.inView, Emptied bound part ∧ part.kind = n.kind

/-- The leaf texts of parts of a template that stand over nodes: the nodes bound to its name lie
under a metavariable, and one node of its kind under any other part. Their leaf texts are those of
the filled parts, but in the place of an emptied part, which stands over a node without children:
there the text of that node itself, if it has one, comes in. -/
inductive FilledOver (bound : String → List SourceNode) :
    List SourceNode → List SourceNode → List String → Prop where
  | nil : FilledOver bound [] [] []
  | metavariable {part : SourceNode} {parts nodes : List SourceNode} {texts : List String}
      {name : String} {kind : MetavariableKind} (hfound : part.metavariable? = some (name, kind))
      (hrest : FilledOver bound parts nodes texts) :
      FilledOver bound (part :: parts) (bound name ++ nodes)
        ((bound name).flatMap SourceNode.leafTexts ++ texts)
  | literal {part n : SourceNode} {parts nodes : List SourceNode} {below texts : List String}
      (hliteral : part.metavariable? = none) (hkept : ¬Emptied bound part)
      (hkind : n.kind = part.kind)
      (hbelow : FilledOver bound (part.children.map (·.node)) (n.children.map (·.node)) below)
      (hrest : FilledOver bound parts nodes texts) :
      FilledOver bound (part :: parts) (n :: nodes) (part.ownText?.toList ++ below ++ texts)
  | emptied {part n : SourceNode} {parts nodes : List SourceNode} {texts : List String}
      (hemptied : Emptied bound part) (hkind : n.kind = part.kind) (hchildren : n.children = [])
      (hrest : FilledOver bound parts nodes texts) :
      FilledOver bound (part :: parts) (n :: nodes) (n.ownText?.toList ++ texts)

/-- Nothing comes in for an emptied part: its runs are bound to nothing. -/
theorem Emptied.filled_eq_nil {bound : String → List SourceNode} {part : SourceNode}
    (h : Emptied bound part) : filled bound part = [] := by
  have hown : part.ownText? = none := Option.eq_none_iff_forall_ne_some.2 fun text htext =>
    h.nonempty (SourceNode.children_eq_nil_of_ownText? htext)
  rw [filled_of_literal h.literal, hown, Option.toList_none, List.nil_append,
    List.flatMap_eq_nil_iff]
  intro c hc
  obtain ⟨name, hrun, hnothing⟩ := h.runs c hc
  rw [filled_of_found hrun, hnothing, List.flatMap_nil]

namespace FilledOver

variable {bound : String → List SourceNode}

theorem append {parts parts' nodes nodes' : List SourceNode} {texts texts' : List String}
    (h : FilledOver bound parts nodes texts) (h' : FilledOver bound parts' nodes' texts') :
    FilledOver bound (parts ++ parts') (nodes ++ nodes') (texts ++ texts') := by
  induction h with
  | nil => exact h'
  | metavariable hfound _ ih =>
    rw [List.append_assoc, List.append_assoc]
    exact .metavariable hfound ih
  | literal hliteral hkept hkind hbelow _ _ ih =>
    rw [List.append_assoc]
    exact .literal hliteral hkept hkind hbelow ih
  | emptied hemptied hkind hchildren _ ih =>
    rw [List.append_assoc]
    exact .emptied hemptied hkind hchildren ih

/-- Runs bound to nothing stand over no node. -/
theorem nodes_eq_nil {parts nodes : List SourceNode} {texts : List String}
    (h : FilledOver bound parts nodes texts)
    (hruns : ∀ part ∈ parts, ∃ name,
      part.metavariable? = some (name, .multiple) ∧ bound name = []) : nodes = [] := by
  induction h with
  | nil => rfl
  | metavariable hfound _ ih =>
    obtain ⟨⟨name, hrun, hnothing⟩, hruns⟩ := List.forall_mem_cons.1 hruns
    cases hfound.symm.trans hrun
    rw [hnothing, ih hruns, List.append_nil]
  | literal hliteral =>
    obtain ⟨⟨name, hrun, -⟩, -⟩ := List.forall_mem_cons.1 hruns
    cases hliteral.symm.trans hrun
  | emptied hemptied =>
    obtain ⟨⟨name, hrun, -⟩, -⟩ := List.forall_mem_cons.1 hruns
    cases hemptied.literal.symm.trans hrun

/-- Bindings, parts and nodes leave no choice for the texts. -/
theorem unique {parts nodes : List SourceNode} {texts others : List String}
    (h : FilledOver bound parts nodes texts) (h' : FilledOver bound parts nodes others) :
    others = texts := by
  -- What kind of part comes first decides how `others` came about too. The nodes that it stands over
  -- are named `taken` meanwhile: no case can be made of a list that is put together.
  induction h generalizing others with
  | nil =>
    cases h'
    rfl
  | @metavariable _ _ nodes _ name _ hfound _ ih =>
    generalize hnodes : bound name ++ nodes = taken at h'
    cases h' with
    | metavariable hfound' hrest =>
      cases hfound.symm.trans hfound'
      obtain rfl := List.append_cancel_left hnodes
      rw [ih hrest]
    | literal hliteral => cases hfound.symm.trans hliteral
    | emptied hemptied => cases hfound.symm.trans hemptied.literal
  | @literal _ n _ nodes _ _ hliteral hkept _ _ _ ihbelow ih =>
    generalize hnodes : n :: nodes = taken at h'
    cases h' with
    | metavariable hfound => cases hliteral.symm.trans hfound
    | literal _ _ _ hbelow hrest =>
      cases hnodes
      rw [ihbelow hbelow, ih hrest]
    | emptied hemptied => exact absurd hemptied hkept
  | @emptied _ n _ nodes _ hemptied _ _ _ ih =>
    generalize hnodes : n :: nodes = taken at h'
    cases h' with
    | metavariable hfound => cases hemptied.literal.symm.trans hfound
    | literal _ hkept => exact absurd hemptied hkept
    | emptied _ _ _ hrest =>
      cases hnodes
      rw [ih hrest]

/-- Where no text can come in, the leaf texts are those of the filled parts. -/
theorem texts_eq_filled {template target : SourceNode} {parts nodes : List SourceNode}
    {texts : List String} (h : FilledOver bound parts nodes texts)
    (hparts : ∀ part ∈ parts, part ∈ template.inView) (hnodes : ∀ n ∈ nodes, n ∈ target.inView)
    (hnone : ∀ text, ¬Spare template target bound text) :
    texts = parts.flatMap (filled bound) := by
  induction h with
  | nil => rfl
  | metavariable hfound _ ih =>
    obtain ⟨-, hparts⟩ := List.forall_mem_cons.1 hparts
    rw [List.flatMap_cons, filled_of_found hfound,
      ih hparts fun n hn => hnodes n (List.mem_append_right _ hn)]
  | literal hliteral _ _ _ _ ihbelow ih =>
    obtain ⟨hpart, hparts⟩ := List.forall_mem_cons.1 hparts
    obtain ⟨hn, hnodes⟩ := List.forall_mem_cons.1 hnodes
    have hbelow := ihbelow
      (List.forall_mem_map.2 fun c hc => SourceNode.mem_inView_of_mem_children hpart hc)
      (List.forall_mem_map.2 fun c hc => SourceNode.mem_inView_of_mem_children hn hc)
    rw [List.flatMap_cons, filled_of_literal hliteral, hbelow, ih hparts hnodes, List.flatMap_map]
  | @emptied part n _ _ _ hemptied hkind _ _ ih =>
    obtain ⟨hpart, hparts⟩ := List.forall_mem_cons.1 hparts
    obtain ⟨hn, hnodes⟩ := List.forall_mem_cons.1 hnodes
    have hown : n.ownText? = none := Option.eq_none_iff_forall_ne_some.2 fun text htext =>
      hnone text ⟨n, hn, htext, part, hpart, hemptied, hkind.symm⟩
    rw [List.flatMap_cons, hemptied.filled_eq_nil, hown, ih hparts hnodes]
    rfl

end FilledOver

end Template

/-- The nodes that the bindings bind to a name. -/
def Binding.nodesOf {ν : Type} (bindings : List (Binding ν)) (name : String) : List ν :=
  bindings.filterMap fun b => if b.name = name then b.node else none

theorem Binding.nodesOf_append {ν : Type} (bindings others : List (Binding ν)) (name : String) :
    nodesOf (bindings ++ others) name = nodesOf bindings name ++ nodesOf others name :=
  List.filterMap_append

theorem Binding.nodesOf_eq_nil {ν : Type} {bindings : List (Binding ν)} {name : String}
    (h : ∀ b ∈ bindings, b.name ≠ name) : nodesOf bindings name = [] := by
  rw [nodesOf, List.filterMap_eq_nil_iff]
  intro b hb
  exact if_neg (h b hb)

theorem Binding.nodesOf_ofRun {ν : Type} (name : String) (nodes : List ν) :
    nodesOf (Binding.ofRun name nodes) name = nodes := by
  rw [nodesOf, Log.filterMap_ofRun, if_pos rfl]

namespace Template

open Binding (nodesOf)

/-- Parts of a template account for nodes of a target through what was bound on the way. -/
structure Accounts (parts : List SourceNode) (added : List (Binding SourceNode))
    (nodes : List SourceNode) : Prop where
  names : ∀ b ∈ added, b.name ∈ (parts.flatMap decoded).map (·.1)
  single : ∀ name, (name, .single) ∈ parts.flatMap decoded → ∃ n, nodesOf added name = [n]
  nothing : nodes = [] → ∀ part ∈ parts, ∃ name,
    part.metavariable? = some (name, .multiple) ∧ nodesOf added name = []
  texts : ∀ bound, (∀ d ∈ parts.flatMap decoded, bound d.1 = nodesOf added d.1) →
    FilledOver bound parts nodes (nodes.flatMap SourceNode.leafTexts)

namespace Accounts

theorem empty : Accounts [] [] [] where
  names _ h := nomatch h
  single _ h := nomatch h
  nothing _ _ h := nomatch h
  texts _ _ := .nil

/-- Parts that share no name account for nodes one after the other. -/
theorem append {parts parts' nodes nodes' : List SourceNode}
    {added added' : List (Binding SourceNode)} (h : Accounts parts added nodes)
    (h' : Accounts parts' added' nodes')
    (hdisjoint : ∀ name ∈ (parts.flatMap decoded).map (·.1),
      name ∉ (parts'.flatMap decoded).map (·.1)) :
    Accounts (parts ++ parts') (added ++ added') (nodes ++ nodes') := by
  have hfirst : ∀ d ∈ parts.flatMap decoded, nodesOf (added ++ added') d.1 = nodesOf added d.1 := by
    intro d hd
    have hnone : nodesOf added' d.1 = [] := by
      apply Binding.nodesOf_eq_nil
      intro b hb he
      exact hdisjoint d.1 (List.mem_map_of_mem hd) (he ▸ h'.names b hb)
    rw [Binding.nodesOf_append, hnone, List.append_nil]
  have hsecond : ∀ d ∈ parts'.flatMap decoded,
      nodesOf (added ++ added') d.1 = nodesOf added' d.1 := by
    intro d hd
    have hnone : nodesOf added d.1 = [] := by
      apply Binding.nodesOf_eq_nil
      intro b hb he
      exact hdisjoint b.name (h.names b hb) (he ▸ List.mem_map_of_mem hd)
    rw [Binding.nodesOf_append, hnone, List.nil_append]
  constructor
  · intro b hb
    rw [List.flatMap_append, List.map_append]
    rcases List.mem_append.1 hb with hb | hb
    · exact List.mem_append_left _ (h.names b hb)
    · exact List.mem_append_right _ (h'.names b hb)
  · intro name hname
    rw [List.flatMap_append] at hname
    rcases List.mem_append.1 hname with hname | hname
    · rw [hfirst _ hname]
      exact h.single name hname
    · rw [hsecond _ hname]
      exact h'.single name hname
  · intro hnone part hpart
    obtain ⟨hnodes, hnodes'⟩ := List.append_eq_nil_iff.1 hnone
    rcases List.mem_append.1 hpart with hpart | hpart
    · obtain ⟨name, hrun, hempty⟩ := h.nothing hnodes part hpart
      exact ⟨name, hrun, (hfirst _ (mem_decoded_of_found hpart hrun)).trans hempty⟩
    · obtain ⟨name, hrun, hempty⟩ := h'.nothing hnodes' part hpart
      exact ⟨name, hrun, (hsecond _ (mem_decoded_of_found hpart hrun)).trans hempty⟩
  · intro bound hbound
    rw [List.flatMap_append] at hbound
    rw [List.flatMap_append]
    refine (h.texts bound ?_).append (h'.texts bound ?_)
    · intro d hd
      rw [hbound d (List.mem_append_left _ hd), hfirst d hd]
    · intro d hd
      rw [hbound d (List.mem_append_right _ hd), hsecond d hd]

/-- A metavariable accounts for the nodes bound to its name. -/
theorem of_found {part : SourceNode} {name : String} {kind : MetavariableKind}
    {nodes : List SourceNode} (hpart : part.metavariable? = some (name, kind))
    (hkind : kind = .single → ∃ n, nodes = [n]) :
    Accounts [part] (Binding.ofRun name nodes) nodes := by
  have hdecoded : [part].flatMap decoded = [(name, kind)] := by
    rw [List.flatMap_singleton, decoded_of_found hpart]
  have hnodes := Binding.nodesOf_ofRun name nodes
  constructor
  · intro b hb
    rw [hdecoded]
    cases nodes with
    | nil =>
      obtain rfl := List.mem_singleton.1 hb
      exact List.mem_singleton_self name
    | cons n rest =>
      obtain ⟨_, -, rfl⟩ := List.mem_map.1 hb
      exact List.mem_singleton_self name
  · intro other hother
    rw [hdecoded, List.mem_singleton] at hother
    cases hother
    rw [hnodes]
    exact hkind rfl
  · rintro rfl other hother
    obtain rfl := List.mem_singleton.1 hother
    cases kind with
    | single => obtain ⟨n, hn⟩ := hkind rfl; cases hn
    | multiple => exact ⟨name, hpart, hnodes⟩
  · intro bound hbound
    rw [hdecoded] at hbound
    have hname : bound name = nodes := by
      rw [hbound _ (List.mem_singleton_self _), hnodes]
    have hfilled : FilledOver bound [part] (bound name ++ [])
      ((bound name).flatMap SourceNode.leafTexts ++ []) := .metavariable hpart .nil
    rwa [List.append_nil, List.append_nil, hname] at hfilled

/-- Parts that account for no node are runs bound to nothing. -/
theorem emptied {part : SourceNode} {added : List (Binding SourceNode)}
    {bound : String → List SourceNode}
    (h : Accounts (part.children.map (·.node)) added [])
    (hliteral : part.metavariable? = none) (hnonempty : part.children ≠ [])
    (hbound : ∀ d ∈ (part.children.map (·.node)).flatMap decoded,
      bound d.1 = nodesOf added d.1) : Emptied bound part := by
  refine ⟨hliteral, hnonempty, ?_⟩
  intro c hc
  have hmem : c.node ∈ part.children.map (·.node) := List.mem_map_of_mem hc
  obtain ⟨name, hrun, hempty⟩ := h.nothing rfl c.node hmem
  have hname := hbound (name, .multiple) (mem_decoded_of_found hmem hrun)
  exact ⟨name, hrun, hname.trans hempty⟩

/-- A literal part accounts for a node when the parts below it account for the children. An emptied
part accounts for a node without children, whatever the text of that node. -/
theorem of_literal {part n : SourceNode} {added : List (Binding SourceNode)}
    (hliteral : part.metavariable? = none) (hkind : n.kind = part.kind)
    (htext : ∀ text, part.ownText? = some text → n.ownText? = some text)
    (hleaf : part.children = [] → part.ownText?.isSome)
    (h : Accounts (part.children.map (·.node)) added (n.children.map (·.node))) :
    Accounts [part] added [n] := by
  have hdecoded : [part].flatMap decoded = (part.children.map (·.node)).flatMap decoded := by
    rw [List.flatMap_singleton, decoded_of_literal hliteral, List.flatMap_map]
  constructor
  · rw [hdecoded]
    exact h.names
  · rw [hdecoded]
    exact h.single
  · intro hnone
    cases hnone
  · intro bound hbound
    rw [hdecoded] at hbound
    rw [List.flatMap_singleton, SourceNode.leafTexts_eq]
    have hbelow := h.texts bound hbound
    rw [List.flatMap_map (f := fun c : Child SourceNode => c.node)] at hbelow
    by_cases hemptied : Emptied bound part
    · have hchildren : n.children = [] :=
        List.map_eq_nil_iff.1 (hbelow.nodes_eq_nil (List.forall_mem_map.2 hemptied.runs))
      have hfilled := FilledOver.emptied hemptied hkind hchildren .nil
      rwa [hchildren]
    · have hown : n.ownText? = part.ownText? := by
        cases hpart : part.ownText? with
        | some text => exact htext text hpart
        | none =>
          refine Option.eq_none_iff_forall_ne_some.2 fun text hown => hemptied ?_
          have hchildren : n.children = [] := SourceNode.children_eq_nil_of_ownText? hown
          rw [hchildren] at h
          refine h.emptied hliteral ?_ hbound
          intro hnil
          rw [hpart] at hleaf
          exact absurd (hleaf hnil) Bool.false_ne_true
      have hfilled := FilledOver.literal hliteral hemptied hkind hbelow .nil
      rwa [List.append_nil, ← hown] at hfilled

end Accounts

end Template
end StructuralSearch
