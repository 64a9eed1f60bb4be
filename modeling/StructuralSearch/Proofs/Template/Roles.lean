import StructuralSearch.Proofs.Matching.Adapters
import StructuralSearch.Proofs.Template.Runs

/-!
# Adapters in templates

Below parents of one kind a role says by its name alone what it expects, but for a field that is
called as statements are. A literal of a template matches nodes of its own kind, and a slot of it
children whose roles have its name. So these accept what the slot expects, and the adapter that
conversion puts around a single node there filters nothing.
-/
namespace StructuralSearch

namespace Source

/-- The names of a node by itself, of a child about which nothing is known and of a statement are no
fields that expect something. -/
theorem fieldExpects_eq_none {parent field : String}
    (h : field ∈ ["<root>", "child", "statement"]) : fieldExpects parent field = none := by
  simp only [List.mem_cons, List.not_mem_nil, or_false] at h
  rcases h with rfl | rfl | rfl <;> simp [fieldExpects]

theorem roleBelow_none_eq (parent : String) (named : Bool) :
    roleBelow parent none named = statement ∨ roleBelow parent none named = .child := by
  rw [roleBelow]
  split
  · exact .inl rfl
  · exact .inr rfl

section

variable {parent : String} {field field' : Option String} {named named' : Bool} {k : Construct}

/-- A role that expects something is a statement's or that of a field. -/
theorem statement_or_field_of_expects (h : (roleBelow parent field named).expects = some k) :
    (field = none ∧ roleBelow parent field named = statement) ∨
      ∃ f, field = some f ∧ f ∉ ["<root>", "child", "statement"] := by
  cases field with
  | none =>
    rcases roleBelow_none_eq parent named with hrole | hrole
    · exact .inl ⟨rfl, hrole⟩
    · rw [hrole] at h
      cases h
  | some f =>
    refine .inr ⟨f, rfl, fun hf => ?_⟩
    have hnone : (roleBelow parent (some f) named).expects = none := fieldExpects_eq_none hf
    rw [hnone] at h
    cases h

theorem not_isRoot_of_expects (h : (roleBelow parent field named).expects = some k) :
    ¬(roleBelow parent field named).isRoot := by
  rw [Role.isRoot, Role.beq_iff]
  rcases statement_or_field_of_expects h with ⟨-, hstatement⟩ | ⟨f, rfl, hf⟩
  · rw [hstatement]
    decide
  · exact List.ne_of_not_mem_cons hf

/-- Below parents of one kind, the roles of one name expect the same. -/
theorem roleBelow_eq_of_name_eq (h : (roleBelow parent field named).expects = some k)
    (hfield : field' ≠ some "statement")
    (hname : (roleBelow parent field' named').name = (roleBelow parent field named).name) :
    roleBelow parent field' named' = roleBelow parent field named := by
  rcases statement_or_field_of_expects h with ⟨-, hstatement⟩ | ⟨f, rfl, hf⟩
  · rw [hstatement] at hname ⊢
    cases field' with
    | none =>
      rcases roleBelow_none_eq parent named' with hrole | hrole
      · exact hrole
      · rw [hrole] at hname
        exact absurd hname (by decide)
    | some g => exact absurd (congrArg some hname) hfield
  · have hf : (roleBelow parent (some f) named).name ∉ ["<root>", "child", "statement"] := hf
    cases field' with
    | none =>
      rw [← hname] at hf
      rcases roleBelow_none_eq parent named' with hrole | hrole
      · rw [hrole] at hf
        exact absurd (by decide) hf
      · rw [hrole] at hf
        exact absurd (by decide) hf
    | some g =>
      obtain rfl : g = f := hname
      rfl

/-- A child that fits a slot accepts what the slot expects, where both stand below parents of one
kind. -/
theorem accepts_of_fits (h : (roleBelow parent field named).expects = some k)
    (hfield : field' ≠ some "statement")
    (hfits : (roleBelow parent field named).isRoot ||
      roleBelow parent field' named' == roleBelow parent field named) :
    (roleBelow parent field' named').accepts k := by
  rcases Bool.or_eq_true_iff.1 hfits with hroot | hname
  · exact absurd hroot (not_isRoot_of_expects h)
  · rw [roleBelow_eq_of_name_eq h hfield (Role.beq_iff.1 hname), Role.accepts, h, beq_self_eq_true,
      Bool.or_true]

end

end Source

theorem SourceNode.role_of_mem_children {n : SourceNode} {c : Child SourceNode}
    (h : c ∈ n.children) : c.role = Source.roleBelow n.kind c.node.label.field c.node.label.named := by
  obtain ⟨_, -, rfl⟩ := List.mem_map.1 h
  rfl

/-- The pattern without the adapters at the chosen places. -/
def CheckedPattern.withoutAdapters (chosen : List Pattern.Turn → Bool) (p : CheckedPattern) :
    CheckedPattern where
  elements := Pattern.eachWithoutAdapters .element chosen 0 p.elements
  captures := p.captures
  checked := Pattern.checkSequence_withoutAdapters chosen 0 p.checked

namespace Template

open SourceNode (target)
open Pattern (outcomes outcomesInTurn withoutAdapters slotsWithoutAdapters)

/-- What the slot expects is accepted by each of the siblings that fit the slot. -/
def Meets (slot : Role) (siblings : Array (Child SourceNode)) : Prop :=
  ∀ k, slot.expects = some k → ∀ c ∈ siblings, slot.isRoot || c.role == slot → c.role.accepts k

theorem meets_children {m node : SourceNode} (hkind : node.kind = m.kind)
    (hfields : ∀ c ∈ node.children, c.node.label.field ≠ some "statement") :
    ∀ c ∈ m.children, Meets c.role node.children.toArray := by
  intro c hc k hk d hd hfits
  have hd := List.mem_toArray.1 hd
  rw [SourceNode.role_of_mem_children hc, ← hkind] at hk hfits
  rw [SourceNode.role_of_mem_children hd] at hfits ⊢
  exact Source.accepts_of_fits hk (hfields d hd) hfits

theorem withoutAdapters_singlePattern (chosen : List Pattern.Turn → Bool) (bound : List String)
    (name : String) : (singlePattern bound name).withoutAdapters chosen = singlePattern bound name := by
  rw [singlePattern]
  split
  · rfl
  · split <;> rfl

theorem outcomes_adapter_singlePattern {slot : Role} {siblings : Array (Child SourceNode)}
    (hmeets : Meets slot siblings) {k : Construct} (hk : slot.expects = some k) (bound : List String)
    (name : String) (i : Nat) (log : Log SourceNode) :
    outcomes target (.adapter k (singlePattern bound name)) slot siblings i log =
      outcomes target (singlePattern bound name) slot siblings i log := by
  rw [outcomes, List.filter_eq_self]
  intro o ho
  obtain ⟨child, hchild, hindex⟩ := (single_singlePattern bound name).exists_fittingAt? o ho
  have hget := getElem?_of_fittingAt? hchild
  have hfits : slot.isRoot || child.role == slot := (Option.filter_eq_some_iff.1 hchild).2
  rw [hindex, between_succ hget, List.all_cons, List.all_nil, Bool.and_true]
  exact hmeets k hk child (Array.mem_of_getElem? hget) hfits

theorem outcomes_withoutAdapters_metavariablePattern {slot : Role}
    {siblings : Array (Child SourceNode)} (hmeets : Meets slot siblings)
    (chosen : List Pattern.Turn → Bool) (bound : List String) (name : String)
    (kind : MetavariableKind) (i : Nat) (log : Log SourceNode) :
    outcomes target ((metavariablePattern bound name kind slot).1.withoutAdapters chosen) slot
        siblings i log =
      outcomes target (metavariablePattern bound name kind slot).1 slot siblings i log := by
  cases kind with
  | single =>
    rw [metavariablePattern_single]
    dsimp only
    split
    · rename_i k hk
      rw [withoutAdapters, withoutAdapters_singlePattern]
      split
      · exact (outcomes_adapter_singlePattern hmeets hk bound name i log).symm
      · rfl
    · rw [withoutAdapters_singlePattern]
  | multiple =>
    rw [metavariablePattern]
    split <;> rfl

/-- Below a node in which no field is called as statements are, the pattern of a template has the
same outcomes without its adapters. -/
theorem outcomes_withoutAdapters_toPattern {n : SourceNode}
    (hfields : ∀ m ∈ n.preOrder, m.label.field ≠ some "statement") :
    (∀ (bound : List String) (m : SourceNode) (slot : Role) (chosen : List Pattern.Turn → Bool)
      (siblings : Array (Child SourceNode)) (i : Nat) (log : Log SourceNode),
      (∀ c ∈ siblings, c.node ∈ n.preOrder) → Meets slot siblings →
      outcomes target ((toPattern bound m slot).1.withoutAdapters chosen) slot siblings i log =
        outcomes target (toPattern bound m slot).1 slot siblings i log) ∧
    (∀ (bound : List String) (cs : List (Child SourceNode)) (chosen : List Pattern.Turn → Bool)
      (j : Nat) (siblings : Array (Child SourceNode)) (i : Nat) (log : Log SourceNode),
      (∀ c ∈ siblings, c.node ∈ n.preOrder) → (∀ c ∈ cs, Meets c.role siblings) →
      outcomesInTurn target (slotsWithoutAdapters chosen j (toSlots bound cs).1) siblings i log =
        outcomesInTurn target (toSlots bound cs).1 siblings i log) := by
  apply toPattern.mutual_induct
  · intro bound m slot name kind hfound chosen siblings i log _ hmeets
    rw [toPattern_of_found hfound]
    exact outcomes_withoutAdapters_metavariablePattern hmeets chosen bound name kind i log
  · intro bound m slot hliteral slots bound' hslots ih chosen siblings i log hinside _
    rw [toPattern_of_literal hliteral, withoutAdapters, outcomes, outcomes]
    refine List.flatMap_congr fun child hchild => ?_
    obtain ⟨hfitting, hsame⟩ := List.mem_filter.1 hchild
    have hin : child.node ∈ n.preOrder := inside_of_fittingAt? hinside (Option.mem_toList.1 hfitting)
    -- The roles below the node that is matched are those below a node of the template's kind.
    have hkind : child.node.kind = m.kind := beq_iff_eq.1 (Bool.and_eq_true_iff.1 hsame).1
    have hbelow : ∀ c ∈ child.node.children, c.node ∈ n.preOrder := fun c hc =>
      SourceNode.mem_preOrder_of_mem_below hin (SourceNode.mem_below_of_mem_children hc)
    have hmeets := meets_children hkind fun c hc => hfields c.node (hbelow c hc)
    rw [ih chosen 0 (target.children child.node).toArray 0 log
      (fun c hc => hbelow c (List.mem_toArray.1 hc)) hmeets]
  · intro bound chosen j siblings i log _ _
    rw [toSlots_nil]
    rfl
  · intro bound c rest p bound' hp slots bound'' hslots ih ihrest chosen j siblings i log hinside
      hmeets
    obtain ⟨hc, hrest⟩ := List.forall_mem_cons.1 hmeets
    rw [hp] at ih
    rw [toSlots_cons, hp, slotsWithoutAdapters, outcomesInTurn, outcomesInTurn,
      ih _ siblings i log hinside hc]
    exact List.flatMap_congr fun o _ => ihrest chosen (j + 1) siblings o.index o.log hinside hrest

/-- **Adapters in templates do nothing.** In a tree without fields that are called as statements
are, a template that compiles has the same matches with each node, in the same order, when the
adapters at any places are taken off its pattern, or all of them. -/
theorem results_withoutAdapters {parser : Parser} {language : Language} {source : String}
    {t : Template} (ht : compile parser language source = .ok t) {n : SourceNode}
    (hfields : ∀ m ∈ n.preOrder, m.label.field ≠ some "statement")
    (chosen : List Pattern.Turn → Bool) :
    ((t.pattern.withoutAdapters chosen).onNode n).results target =
      (t.pattern.onNode n).results target := by
  obtain ⟨root, -, hpattern, -, -, -⟩ := compile_eq_ok_iff.1 ht
  have helements := CheckedPattern.ofPattern_eq_ok_iff.1 hpattern
  have hmeets : Meets .root #[⟨.root, n⟩] := fun _ hk => nomatch hk
  have hinside : ∀ c ∈ #[(⟨.root, n⟩ : Child SourceNode)], c.node ∈ n.preOrder := by
    intro c hc
    obtain rfl := List.mem_singleton.1 (Array.mem_toList_iff.2 hc)
    exact n.mem_preOrder_self
  have houtcomes := (outcomes_withoutAdapters_toPattern hfields).1 [] root .root
    (chosen ∘ .cons (.element 0)) _ 0 .empty hinside hmeets
  calc ((t.pattern.withoutAdapters chosen).onNode n).results target
      = matchesOf target (t.pattern.withoutAdapters chosen).elements [⟨.root, n⟩] :=
        Matcher.results_start target _ _
    _ = matchesOf target [(toPattern [] root .root).1.withoutAdapters _] [⟨.root, n⟩] := by
        show matchesOf target (Pattern.eachWithoutAdapters .element chosen 0 t.pattern.elements) _ = _
        rw [helements]
        rfl
    _ = matchesOf target [(toPattern [] root .root).1] [⟨.root, n⟩] := by
        rw [matchesOf_one, houtcomes, matchesOf_one]
    _ = (t.pattern.onNode n).results target := by
        rw [← helements]
        exact (Matcher.results_start target _ _).symm

/-- The code of a template for an assignment of something to itself. -/
def assignmentCode : String := "__HEDDLE_METAVAR_X__ = __HEDDLE_METAVAR_X__"

/-- An assignment in Python, from where its sides stop. -/
def assignmentTree (left right : Nat) : ParseTree :=
  sound "module" true 0 right none
    [sound "expression_statement" true 0 right none
      [sound "assignment" true 0 right none
        [sound "identifier" true 0 left (some "left") [],
          sound "=" false (left + 1) (left + 2) none [],
          sound "identifier" true (left + 3) right (some "right") []]]]

def assignmentParser : Parser :=
  fun _ text => if text = assignmentCode then some ⟨assignmentTree 20 43, false⟩ else none

/-- The assignment in a module that is nothing else. -/
def assignmentIn (source : String) (file : ParseTree) : SourceNode :=
  let statement := file.children.head!
  ⟨source, [(0, statement), (0, file)], statement.children.head!⟩

def assignmentRoot : SourceNode :=
  assignmentIn assignmentCode (assignmentTree 20 43)

def assigning : Template where
  source := "$X = $X"
  language := .python
  metavariables := [⟨"X", .single, 0⟩, ⟨"X", .single, 5⟩]
  pattern := ⟨[.literal "assignment" none
    [(⟨"left", some .expression⟩, .adapter .expression (.any (some "X"))),
      (.child, .literal "=" (some "=") []),
      (⟨"right", some .expression⟩, .adapter .expression (.backreference "X"))]], ["X"], rfl⟩

theorem denoted?_assignmentRoot :
    denoted? assignmentParser .python "$X = $X" = some assignmentRoot := by
  have hcode : withPlaceholders "$X = $X" = .ok (assignmentCode, assigning.metavariables) := by
    decide +kernel
  rw [denoted?_of_parse hcode (show assignmentParser .python assignmentCode = _ from rfl)]
  show SourceNode.peel _ = _
  rw [SourceNode.peel_of_soleNamed? (show _ = some assignmentRoot from rfl) (by decide +kernel),
    SourceNode.peel_of_not_onlyTerminates (by decide +kernel)]

theorem compile_assigning : compile assignmentParser .python "$X = $X" = .ok assigning := by
  refine compile_eq_ok_iff.2 ⟨assignmentRoot, denoted?_assignmentRoot, ?_, by decide +kernel, rfl, rfl⟩
  have hliteral : SourceNode.metavariable? assignmentRoot = none ∧
      SourceNode.metavariable? (nodeAt assignmentRoot [1]) = none := by decide +kernel
  have hsides : SourceNode.metavariable? (nodeAt assignmentRoot [0]) = some ("X", .single) ∧
      SourceNode.metavariable? (nodeAt assignmentRoot [2]) = some ("X", .single) := by decide +kernel
  have hchildren : assignmentRoot.children = [⟨⟨"left", some .expression⟩, nodeAt assignmentRoot [0]⟩,
      ⟨.child, nodeAt assignmentRoot [1]⟩,
      ⟨⟨"right", some .expression⟩, nodeAt assignmentRoot [2]⟩] := rfl
  have hleaf : (nodeAt assignmentRoot [1]).children = [] := rfl
  have htexts : assignmentRoot.ownText? = none ∧
      (nodeAt assignmentRoot [1]).ownText? = some "=" := by decide +kernel
  rw [CheckedPattern.ofPattern_eq_ok_iff]
  simp only [toPattern_of_literal hliteral.1, toPattern_of_literal hliteral.2, hchildren, hleaf,
    htexts, toSlots_cons, toSlots_nil, toPattern_of_found hsides.1, toPattern_of_found hsides.2]
  rfl

/-- An assignment of a name to itself matches once, with the adapters around both sides or
without. -/
theorem assigning_results_withoutAdapters :
    let node := assignmentIn "a = a" (assignmentTree 1 5)
    let bare := assigning.pattern.withoutAdapters fun _ => true
    compile assignmentParser .python "$X = $X" = .ok assigning ∧
      (∀ m ∈ node.preOrder, m.label.field ≠ some "statement") ∧
      bare.elements = [.literal "assignment" none
        [(⟨"left", some .expression⟩, .any (some "X")), (.child, .literal "=" (some "=") []),
          (⟨"right", some .expression⟩, .backreference "X")]] ∧
      (bare.onNode node).results target = (assigning.pattern.onNode node).results target ∧
      ((assigning.pattern.onNode node).results target).map (fun m => (m.get "X").length) = [1] := by
  intro node bare
  have hfields : ∀ m ∈ node.preOrder, m.label.field ≠ some "statement" := by decide +kernel
  have hlengths := map_get_results assigning.pattern node fun bound => (bound "X").length
  exact ⟨compile_assigning, hfields, rfl, results_withoutAdapters compile_assigning hfields _,
    hlengths.trans (by decide +kernel)⟩

end Template
end StructuralSearch
