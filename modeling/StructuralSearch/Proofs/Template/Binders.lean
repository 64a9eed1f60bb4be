import Mathlib.Data.List.Forall2
import StructuralSearch.Proofs.Pattern.Checking
import StructuralSearch.Proofs.Template.Instance

/-!
# The metavariables that bind

Of the metavariables of one name only some bind it: a run always does, and a single node when the
name is not bound yet. In a match each of these adds one piece to what is bound, a node or a run of
siblings. Where each name has one kind and no run is read twice, no name gets two pieces.
-/
namespace StructuralSearch

namespace Template

/-! ## Which metavariables bind -/

/-- A run always binds its name and a single node when the name is not bound yet, but for the
wildcard. -/
def bindsAfter (bound : List String) (d : String × MetavariableKind) : Bool :=
  d.1 != wildcard && (d.2 == .multiple || !bound.contains d.1)

theorem bindsAfter_iff {bound : List String} {d : String × MetavariableKind} :
    bindsAfter bound d ↔ d.1 ≠ wildcard ∧ (d.2 = .multiple ∨ d.1 ∉ bound) := by
  simp [bindsAfter]

/-- The metavariables that bind their names, after the names in `bound`. -/
def binders (bound : List String) :
    List (String × MetavariableKind) → List (String × MetavariableKind)
  | [] => []
  | d :: rest =>
    if bindsAfter bound d then d :: binders (d.1 :: bound) rest else binders bound rest

def boundAfter (bound : List String) (found : List (String × MetavariableKind)) : List String :=
  found.foldl (fun bound d => if bindsAfter bound d then d.1 :: bound else bound) bound

theorem binders_append (bound : List String) (found found' : List (String × MetavariableKind)) :
    binders bound (found ++ found') =
      binders bound found ++ binders (boundAfter bound found) found' := by
  induction found generalizing bound with
  | nil => rfl
  | cons d rest ih =>
    rw [List.cons_append, binders, binders, boundAfter, List.foldl_cons, ← boundAfter]
    split
    · rw [ih, List.cons_append]
    · exact ih bound

theorem boundAfter_append (bound : List String) (found found' : List (String × MetavariableKind)) :
    boundAfter bound (found ++ found') = boundAfter (boundAfter bound found) found' :=
  List.foldl_append

theorem snd_metavariablePattern (bound : List String) (name : String) (kind : MetavariableKind)
    (slot : Role) :
    (metavariablePattern bound name kind slot).2 = boundAfter bound [(name, kind)] := by
  show _ = if bindsAfter bound (name, kind) then name :: bound else bound
  cases kind with
  | single =>
    rw [metavariablePattern_single]
    show singleBound bound name = _
    by_cases hnamed : name = wildcard
    · simp [singleBound, bindsAfter, hnamed]
    · by_cases hbound : name ∈ bound <;> simp [singleBound, bindsAfter, hnamed, hbound]
  | multiple => by_cases hnamed : name = wildcard <;> simp [metavariablePattern, bindsAfter, hnamed]

/-- Conversion binds the names of the metavariables that bind. -/
theorem snd_toPattern :
    (∀ (bound : List String) (n : SourceNode) (slot : Role),
      (toPattern bound n slot).2 = boundAfter bound (decoded n)) ∧
    (∀ (bound : List String) (cs : List (Child SourceNode)),
      (toSlots bound cs).2 = boundAfter bound (cs.flatMap fun c => decoded c.node)) := by
  apply toPattern.mutual_induct
  · intro bound n slot name kind hfound
    rw [toPattern_of_found hfound, decoded_of_found hfound]
    exact snd_metavariablePattern bound name kind slot
  · intro bound n slot hliteral slots bound' hslots ih
    rw [toPattern_of_literal hliteral, decoded_of_literal hliteral]
    exact ih
  · intro bound
    rw [toSlots_nil]
    rfl
  · intro bound c rest p bound' hp slots bound'' hslots ih ihrest
    rw [hp] at ih
    rw [toSlots_cons, hp, List.flatMap_cons, boundAfter_append, ← ih]
    exact ihrest

/-- The names bound are those of all metavariables, but for the wildcard. -/
theorem mem_names_binders {bound : List String} {found : List (String × MetavariableKind)}
    {name : String} (hname : name ∉ bound) :
    name ∈ (binders bound found).map (·.1) ↔ name ≠ wildcard ∧ name ∈ found.map (·.1) := by
  induction found generalizing bound with
  | nil => simp [binders]
  | cons d rest ih =>
    rw [binders, List.map_cons, List.mem_cons]
    by_cases hd : name = d.1
    · subst hd
      split
      · rename_i hbinds
        exact iff_of_true List.mem_cons_self ⟨(bindsAfter_iff.1 hbinds).1, .inl rfl⟩
      · rename_i hbinds
        have hwildcard : d.1 = wildcard := by
          by_contra hnamed
          exact hbinds (bindsAfter_iff.2 ⟨hnamed, .inr hname⟩)
        rw [ih hname]
        exact iff_of_false (fun h => h.1 hwildcard) fun h => h.1 hwildcard
    · rw [or_iff_right hd]
      split
      · rw [List.map_cons, List.mem_cons, or_iff_right hd]
        exact ih (List.not_mem_cons_of_ne_of_not_mem hd hname)
      · exact ih hname

theorem mem_of_mem_binders {bound : List String} {found : List (String × MetavariableKind)}
    {d : String × MetavariableKind} (h : d ∈ binders bound found) : d ∈ found := by
  fun_induction binders bound found with
  | case1 => exact h
  | case2 bound first rest _ ih =>
    rcases List.mem_cons.1 h with rfl | h
    · exact List.mem_cons_self
    · exact List.mem_cons_of_mem _ (ih h)
  | case3 bound first rest _ ih => exact List.mem_cons_of_mem _ (ih h)

/-- Each name stands for single nodes or for a run, and for a run once at most. -/
structure Unambiguous (found : List (String × MetavariableKind)) : Prop where
  oneKind : ∀ name, name ≠ wildcard → (name, .single) ∈ found → (name, .multiple) ∉ found
  oneRun : ∀ name, name ≠ wildcard → found.count (name, .multiple) ≤ 1

namespace Unambiguous

variable {d : String × MetavariableKind} {found : List (String × MetavariableKind)}

theorem tail (h : Unambiguous (d :: found)) : Unambiguous found where
  oneKind name hname hsingle hmultiple :=
    h.oneKind name hname (List.mem_cons_of_mem d hsingle) (List.mem_cons_of_mem d hmultiple)
  oneRun name hname := Nat.le_trans List.count_le_count_cons (h.oneRun name hname)

/-- After any metavariable there is no run of its name. -/
theorem not_mem_tail (h : Unambiguous (d :: found)) (hnamed : d.1 ≠ wildcard) :
    (d.1, .multiple) ∉ found := by
  obtain ⟨name, kind⟩ := d
  cases kind with
  | single =>
    intro hmultiple
    exact h.oneKind name hnamed List.mem_cons_self (List.mem_cons_of_mem _ hmultiple)
  | multiple =>
    have hcount := h.oneRun name hnamed
    rw [List.count_cons_self] at hcount
    exact List.count_eq_zero.1 (Nat.le_zero.1 (Nat.le_of_succ_le_succ hcount))

end Unambiguous

/-- No name is bound twice. -/
theorem nodup_names_binders {bound : List String} {found : List (String × MetavariableKind)}
    (h : Unambiguous found) (hbound : ∀ name ∈ bound, (name, .multiple) ∉ found) :
    ((binders bound found).map (·.1)).Nodup ∧
      ∀ name ∈ (binders bound found).map (·.1), name ∉ bound := by
  induction found generalizing bound with
  | nil => exact ⟨.nil, nofun⟩
  | cons d rest ih =>
    have hrest : ∀ name ∈ bound, (name, .multiple) ∉ rest :=
      fun name hname hmem => hbound name hname (List.mem_cons_of_mem d hmem)
    rw [binders]
    split
    · rename_i hbinds
      obtain ⟨hnamed, hnew⟩ := bindsAfter_iff.1 hbinds
      have hd : d.1 ∉ bound := by
        rcases hnew with hmultiple | hnew
        · exact fun hmem => hbound d.1 hmem (hmultiple ▸ List.mem_cons_self)
        · exact hnew
      obtain ⟨hnodup, hunbound⟩ :=
        ih h.tail (List.forall_mem_cons.2 ⟨h.not_mem_tail hnamed, hrest⟩)
      rw [List.map_cons]
      refine ⟨List.nodup_cons.2 ⟨fun hmem => ?_, hnodup⟩, List.forall_mem_cons.2 ⟨hd, ?_⟩⟩
      · exact hunbound d.1 hmem List.mem_cons_self
      · exact fun name hname hmem => hunbound name hname (List.mem_cons_of_mem _ hmem)
    · exact ih h.tail hrest

/-! ## What is bound -/

open SourceNode (target)

/-- The nodes that one metavariable binds to its name. -/
structure Piece where
  name : String
  nodes : List SourceNode

def Piece.bindings (p : Piece) : List (Binding SourceNode) :=
  Binding.ofRun p.name p.nodes

/-- The piece is one for the metavariable, and stands at a site. -/
structure Fills (site : List SourceNode → Prop) (d : String × MetavariableKind) (p : Piece) :
    Prop where
  name : p.name = d.1
  single : d.2 = .single → ∃ n, p.nodes = [n]
  site : site p.nodes

/-- The log has grown by one piece for each of the metavariables that bind. -/
def GrowsBy (site : List SourceNode → Prop) (binding : List (String × MetavariableKind))
    (log log' : Log SourceNode) : Prop :=
  ∃ pieces, List.Forall₂ (Fills site) binding pieces ∧
    log'.toList = log.toList ++ pieces.flatMap Piece.bindings

section

variable {bound : List String} {name : String} {kind : MetavariableKind} {slot slot' : Role}
  {siblings : Array (Child SourceNode)} {i : Nat} {log : Log SourceNode} {o : Outcome SourceNode}

theorem log_of_bindsAfter (h : bindsAfter bound (name, kind))
    (ho : o ∈ Pattern.outcomes target (metavariablePattern bound name kind slot).1 slot' siblings i
      log) :
    o.log = log.addRun name ((between siblings i o.index).map (·.node)) ∧
      (kind = .single → ∃ child, between siblings i o.index = [child]) := by
  obtain ⟨hnamed, hnew⟩ := bindsAfter_iff.1 h
  rcases hnew with rfl | hnew
  · rw [metavariablePattern, if_neg hnamed] at ho
    obtain ⟨inner, hinner, rfl⟩ := List.mem_map.1 ho
    refine ⟨?_, fun hsingle => ?_⟩
    · rw [← log_of_mem_outcomes_star_any hinner]
    · cases hsingle
  · exact mem_outcomes_metavariablePattern hnamed hnew ho

theorem log_of_not_bindsAfter (h : ¬bindsAfter bound (name, kind))
    (ho : o ∈ Pattern.outcomes target (metavariablePattern bound name kind slot).1 slot' siblings i
      log) : o.log = log := by
  cases kind with
  | single =>
    have hsingle := mem_outcomes_singlePattern ho
    unfold singlePattern at hsingle
    split at hsingle
    · obtain ⟨_, -, rfl⟩ := List.mem_map.1 hsingle
      rfl
    · split at hsingle
      · obtain ⟨_, -, rfl⟩ := List.mem_map.1 hsingle
        rfl
      · rename_i hnamed hnew
        exact absurd (bindsAfter_iff.2 ⟨hnamed, .inr (by simpa using hnew)⟩) h
  | multiple =>
    rw [metavariablePattern] at ho
    split at ho
    · exact log_of_mem_outcomes_star_any ho
    · rename_i hnamed
      exact absurd (bindsAfter_iff.2 ⟨hnamed, .inl rfl⟩) h

end

namespace GrowsBy

variable {site : List SourceNode → Prop} {binding binding' : List (String × MetavariableKind)}
  {log log' log'' : Log SourceNode}

theorem nil : GrowsBy site [] log log :=
  ⟨[], .nil, (List.append_nil _).symm⟩

theorem append (h : GrowsBy site binding log log') (h' : GrowsBy site binding' log' log'') :
    GrowsBy site (binding ++ binding') log log'' := by
  obtain ⟨pieces, hpieces, hlog⟩ := h
  obtain ⟨pieces', hpieces', hlog'⟩ := h'
  refine ⟨pieces ++ pieces', List.rel_append hpieces hpieces', ?_⟩
  rw [hlog', hlog, List.flatMap_append, List.append_assoc]

end GrowsBy

/-- A metavariable that binds its name adds the siblings that it takes. -/
theorem growsBy_metavariablePattern {site : List SourceNode → Prop} {bound : List String}
    {name : String} {kind : MetavariableKind} {slot slot' : Role}
    {siblings : Array (Child SourceNode)} {i : Nat} {log : Log SourceNode} {o : Outcome SourceNode}
    (ho : o ∈ Pattern.outcomes target (metavariablePattern bound name kind slot).1 slot' siblings i
      log) (hsite : site ((between siblings i o.index).map (·.node))) :
    GrowsBy site (binders bound [(name, kind)]) log o.log := by
  rw [binders]
  split
  · rename_i hbinds
    obtain ⟨hlog, hsingle⟩ := log_of_bindsAfter hbinds ho
    refine ⟨[⟨name, (between siblings i o.index).map (·.node)⟩], ?_, ?_⟩
    · refine .cons ⟨rfl, ?_, hsite⟩ .nil
      intro hkind
      obtain ⟨child, hchild⟩ := hsingle hkind
      exact ⟨child.node, congrArg (List.map _) hchild⟩
    · rw [hlog, Log.toList_addRun, List.flatMap_singleton]
      rfl
  · rename_i hbinds
    rw [log_of_not_bindsAfter hbinds ho]
    exact .nil

/-- The pattern of a template adds a piece for each metavariable that binds. Those below the top
stand among the children of a node inside. -/
theorem growsBy_toPattern {inside : SourceNode → Prop} {site : List SourceNode → Prop}
    (hbelow : ∀ n, inside n → ∀ c ∈ n.children, inside c.node)
    (hsite : ∀ n, inside n → ∀ i j, site ((between n.children.toArray i j).map (·.node))) :
    (∀ (bound : List String) (n : SourceNode) (slot slot' : Role)
      (siblings : Array (Child SourceNode)) (i : Nat) (log : Log SourceNode),
      (∀ c ∈ siblings, inside c.node) →
      (n.metavariable? ≠ none → ∀ i j, site ((between siblings i j).map (·.node))) →
      ∀ o ∈ Pattern.outcomes target (toPattern bound n slot).1 slot' siblings i log,
        GrowsBy site (binders bound (decoded n)) log o.log) ∧
    (∀ (bound : List String) (cs : List (Child SourceNode)) (siblings : Array (Child SourceNode))
      (i : Nat) (log : Log SourceNode),
      (∀ c ∈ siblings, inside c.node) → (∀ i j, site ((between siblings i j).map (·.node))) →
      ∀ o ∈ Pattern.outcomesInTurn target (toSlots bound cs).1 siblings i log,
        GrowsBy site (binders bound (cs.flatMap fun c => decoded c.node)) log o.log) := by
  apply toPattern.mutual_induct
  · intro bound n slot name kind hfound slot' siblings i log _ hsiblings o ho
    rw [toPattern_of_found hfound] at ho
    rw [decoded_of_found hfound]
    refine growsBy_metavariablePattern ho (hsiblings (fun hnone => ?_) i o.index)
    cases hfound.symm.trans hnone
  · intro bound n slot hliteral slots bound' hslots ih slot' siblings i log hinside _ o ho
    rw [toPattern_of_literal hliteral] at ho
    rw [decoded_of_literal hliteral]
    obtain ⟨child, hchild, ho⟩ := List.mem_flatMap.1 ho
    obtain ⟨inner, hinner, rfl⟩ := List.mem_map.1 ho
    have hin : inside child.node :=
      inside_of_fittingAt? hinside (Option.mem_toList.1 (List.mem_filter.1 hchild).1)
    have hchildren : ∀ c ∈ child.node.children.toArray, inside c.node := by
      intro c hc
      exact hbelow child.node hin c (List.mem_toArray.1 hc)
    exact ih _ 0 log hchildren (hsite child.node hin) inner (List.mem_filter.1 hinner).1
  · intro bound siblings i log _ _ o ho
    rw [toSlots_nil] at ho
    obtain rfl := List.mem_singleton.1 ho
    exact .nil
  · intro bound c rest p bound' hp slots bound'' hslots ih ihrest siblings i log hinside hsiblings
      o ho
    have hbound := snd_toPattern.1 bound c.node c.role
    rw [hp] at ih hbound
    rw [toSlots_cons, hp] at ho
    obtain ⟨first, hfirst, ho⟩ := List.mem_flatMap.1 ho
    rw [List.flatMap_cons, binders_append, ← hbound]
    exact (ih c.role siblings i log hinside (fun _ => hsiblings) first hfirst).append
      (ihrest siblings _ _ hinside hsiblings o ho)

/-! ## What a name is bound to -/

open Binding (nodesOf)

section

variable {site : List SourceNode → Prop} {binding : List (String × MetavariableKind)}
  {pieces : List Piece}

theorem mem_names_pieces (h : List.Forall₂ (Fills site) binding pieces) {name : String} :
    name ∈ (pieces.flatMap Piece.bindings).map (·.name) ↔ name ∈ binding.map (·.1) := by
  induction h with
  | nil => exact Iff.rfl
  | @cons d p ds ps hd hrest ih =>
    rw [List.flatMap_cons, List.map_append, List.mem_append, ih, List.map_cons, List.mem_cons]
    refine or_congr_left ?_
    constructor
    · intro hname
      obtain ⟨b, hb, rfl⟩ := List.mem_map.1 hname
      exact (Binding.name_of_mem_ofRun hb).trans hd.name
    · rintro rfl
      obtain ⟨b, hb⟩ := Binding.exists_mem_ofRun p.name p.nodes
      exact List.mem_map.2 ⟨b, hb, (Binding.name_of_mem_ofRun hb).trans hd.name⟩

/-- A name that one metavariable binds is bound to the piece for it. -/
theorem nodesOf_pieces (h : List.Forall₂ (Fills site) binding pieces)
    (hnodup : (binding.map (·.1)).Nodup) :
    ∀ d ∈ binding, ∃ p, Fills site d p ∧
      nodesOf (pieces.flatMap Piece.bindings) d.1 = p.nodes := by
  induction h with
  | nil => exact nofun
  | @cons d p ds ps hd hrest ih =>
    rw [List.map_cons] at hnodup
    obtain ⟨hnew, hnodup⟩ := List.nodup_cons.1 hnodup
    refine List.forall_mem_cons.2 ⟨⟨p, hd, ?_⟩, fun other hother => ?_⟩
    · have hlater : nodesOf (ps.flatMap Piece.bindings) d.1 = [] := by
        refine Binding.nodesOf_eq_nil fun b hb he => hnew ?_
        exact (mem_names_pieces hrest).1 (he ▸ List.mem_map_of_mem hb)
      rw [List.flatMap_cons, Binding.nodesOf_append, hlater, List.append_nil, ← hd.name]
      exact Binding.nodesOf_ofRun p.name p.nodes
    · obtain ⟨piece, hfills, hnodes⟩ := ih hnodup other hother
      have hfirst : nodesOf p.bindings other.1 = [] := by
        refine Binding.nodesOf_eq_nil fun b hb he => hnew ?_
        rw [← hd.name, ← Binding.name_of_mem_ofRun hb, he]
        exact List.mem_map_of_mem hother
      refine ⟨piece, hfills, ?_⟩
      rw [List.flatMap_cons, Binding.nodesOf_append, hfirst, hnodes]
      rfl

variable {log : Log SourceNode}

theorem GrowsBy.mem_names (h : GrowsBy site binding .empty log) {name : String} :
    name ∈ log.names ↔ name ∈ binding.map (·.1) := by
  obtain ⟨pieces, hpieces, hlog⟩ := h
  rw [Log.mem_names, hlog]
  exact mem_names_pieces hpieces

theorem GrowsBy.exists_piece (h : GrowsBy site binding .empty log)
    (hnodup : (binding.map (·.1)).Nodup) {d : String × MetavariableKind} (hd : d ∈ binding) :
    ∃ p, Fills site d p ∧ log.boundTo d.1 = p.nodes := by
  obtain ⟨pieces, hpieces, hlog⟩ := h
  rw [Log.boundTo, hlog]
  exact nodesOf_pieces hpieces hnodup d hd

end

/-! ## The names of the pattern -/

open Pattern (boundIn occurrences occurrencesInSlots)

/-- What a slot expects binds no name. -/
theorem boundIn_single (bound : List String) (name : String) (slot : Role) :
    boundIn (occurrences (metavariablePattern bound name .single slot).1) =
      boundIn (occurrences (singlePattern bound name)) := by
  rw [metavariablePattern_single]
  dsimp only
  split
  · rw [occurrences, Pattern.boundIn_append, Pattern.boundIn_below]
    exact List.append_nil _
  · rfl

theorem boundIn_metavariablePattern (bound : List String) (name : String)
    (kind : MetavariableKind) (slot : Role) :
    boundIn (occurrences (metavariablePattern bound name kind slot).1) =
      (binders bound [(name, kind)]).map (·.1) := by
  cases kind with
  | single =>
    rw [boundIn_single]
    by_cases hnamed : name = wildcard
    · simp [singlePattern, binders, bindsAfter, hnamed, occurrences, boundIn, Pattern.binder?]
    · by_cases hbound : name ∈ bound <;>
        simp [singlePattern, binders, bindsAfter, hnamed, hbound, occurrences, boundIn,
          Pattern.binder?]
  | multiple =>
    by_cases hnamed : name = wildcard <;>
      simp [metavariablePattern, binders, bindsAfter, hnamed, Pattern.star, occurrences, boundIn,
        Pattern.binder?, Pattern.Occurrence.below]

/-- The pattern of a template binds the names of the metavariables that bind, in their order. -/
theorem boundIn_toPattern :
    (∀ (bound : List String) (n : SourceNode) (slot : Role),
      boundIn (occurrences (toPattern bound n slot).1) = (binders bound (decoded n)).map (·.1)) ∧
    (∀ (bound : List String) (cs : List (Child SourceNode)) (i : Nat),
      boundIn (occurrencesInSlots i (toSlots bound cs).1) =
        (binders bound (cs.flatMap fun c => decoded c.node)).map (·.1)) := by
  apply toPattern.mutual_induct
  · intro bound n slot name kind hfound
    rw [toPattern_of_found hfound, decoded_of_found hfound]
    exact boundIn_metavariablePattern bound name kind slot
  · intro bound n slot hliteral slots bound' hslots ih
    rw [toPattern_of_literal hliteral, decoded_of_literal hliteral, occurrences,
      Pattern.boundIn_append, ih 0]
    exact List.append_nil _
  · intro bound i
    rw [toSlots_nil]
    rfl
  · intro bound c rest p bound' hp slots bound'' hslots ih ihrest i
    have hbound := snd_toPattern.1 bound c.node c.role
    rw [hp] at ih hbound
    rw [toSlots_cons, hp, occurrencesInSlots, Pattern.boundIn_append, Pattern.boundIn_below, ih,
      ihrest (i + 1), List.flatMap_cons, binders_append, ← hbound, List.map_append]

theorem captures_toPattern {root : SourceNode} {p : CheckedPattern}
    (h : CheckedPattern.ofPattern (toPattern [] root .root).1 = .ok p) :
    p.captures = ((binders [] (decoded root)).map (·.1)).eraseDups := by
  rw [p.captures_eq, CheckedPattern.ofPattern_eq_ok_iff.1 h, ← boundIn_toPattern.1 [] root .root]
  show (boundIn ((occurrences _).map _ ++ [])).eraseDups = _
  rw [List.append_nil, Pattern.boundIn_below]

end Template
end StructuralSearch
