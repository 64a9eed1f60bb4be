import StructuralSearch.Source.Node
import StructuralSearch.Template.Metavariable

/-!
# Templates as patterns

The parse tree of a template becomes a pattern: placeholders become metavariables, and every other
node a literal. A statement that only puts a semicolon behind an expression stands for the
expression.
-/
namespace StructuralSearch

namespace SourceNode

/-- The named nodes directly below, without comments. -/
def namedBelow (n : SourceNode) : List SourceNode :=
  n.below.filter fun c => c.label.named && !c.label.extra

/-- The named node directly below, if it is the only one. -/
def soleNamed? (n : SourceNode) : Option SourceNode :=
  match n.namedBelow with
  | [only] => some only
  | _ => none

theorem mem_below_of_soleNamed? {n c : SourceNode} (h : n.soleNamed? = some c) : c ∈ n.below := by
  unfold soleNamed? at h
  split at h
  · rename_i only hn
    cases h
    have : c ∈ n.namedBelow := by simp [hn]
    exact (List.mem_filter.1 this).1
  · cases h

/-- A named node that holds one named node and otherwise semicolons only. -/
def onlyTerminates (n : SourceNode) : Bool :=
  let parts := n.below.filter fun c => !c.label.extra
  !n.label.isError && n.label.named && !Source.listsStatements n.kind &&
    parts.all (fun c => c.label.named || c.kind == ";") && parts.countP (·.label.named) == 1

/-- The expression within statements that only terminate it. -/
def peel (n : SourceNode) : Option SourceNode :=
  if n.onlyTerminates then
    match h : n.soleNamed? with
    | some inner =>
      have := size_lt_of_mem_below (mem_below_of_soleNamed? h)
      peel inner
    | none => none
  else some n
termination_by n.tree.size

/-- The metavariable that a node is the placeholder of, within statements that only terminate it. -/
def metavariable? (n : SourceNode) : Option (String × Template.MetavariableKind) :=
  match n.ownText?.bind Template.ofPlaceholder? with
  | some found => some found
  | none =>
    if n.onlyTerminates then
      match h : n.soleNamed? with
      | some inner =>
        have := size_lt_of_mem_below (mem_below_of_soleNamed? h)
        metavariable? inner
      | none => none
    else none
termination_by n.tree.size

/-- The number of nodes in the trees of children, comments included. -/
def sizeOfChildren (cs : List (Child SourceNode)) : Nat :=
  ParseTree.sizeAll (cs.map fun c => c.node.tree)

theorem sizeAll_filter_le (p : SourceNode → Bool) (ns : List SourceNode) :
    ParseTree.sizeAll ((ns.filter p).map (·.tree)) ≤ ParseTree.sizeAll (ns.map (·.tree)) := by
  induction ns with
  | nil => simp
  | cons n ns ih =>
    by_cases h : p n <;>
      simp only [List.filter_cons, h, if_true, if_false, List.map_cons, ParseTree.sizeAll,
        Bool.false_eq_true] <;> omega

theorem map_tree_below (n : SourceNode) : n.below.map (·.tree) = n.tree.children := by
  rw [below, List.map_map]
  exact List.zipIdx_map_fst 0 n.tree.children

theorem sizeOfChildren_lt (n : SourceNode) : sizeOfChildren n.children < n.tree.size := by
  have trees : n.children.map (fun c => c.node.tree) =
      (n.below.filter fun c => !c.label.extra).map (·.tree) := by
    simp only [children, List.map_map]
    rfl
  have le := sizeAll_filter_le (fun c => !c.label.extra) n.below
  rw [map_tree_below] at le
  have lt : ParseTree.sizeAll n.tree.children < n.tree.size := by
    cases n.tree
    simp only [ParseTree.children, ParseTree.size]
    omega
  rw [sizeOfChildren, trees]
  omega

end SourceNode

namespace Template

/-- The pattern of a metavariable in a slot, after the names in `bound`. The first occurrence of a
name binds it, and later ones compare with what it is bound to. What a slot expects of its child is
expected of the single node that stands there. -/
def metavariablePattern (bound : List String) (name : String) (kind : MetavariableKind)
    (slot : Role) : Pattern × List String :=
  match kind with
  | .single =>
    let (single, bound) : Pattern × List String :=
      if name = wildcard then (.any none, bound)
      else if bound.contains name then (.backreference name, bound)
      else (.any (some name), name :: bound)
    (match slot.expects with
      | some construct => .adapter construct single
      | none => single, bound)
  | .multiple =>
    let run := Pattern.star (.any none)
    if name = wildcard then (run, bound) else (.capture name run, name :: bound)

mutual

/-- The pattern of a node in a slot, after the names in `bound`, and the names bound after it. -/
def toPattern (bound : List String) (n : SourceNode) (slot : Role) : Pattern × List String :=
  match n.metavariable? with
  | some (name, kind) => metavariablePattern bound name kind slot
  | none =>
    let (slots, bound) := toSlots bound n.children
    (.literal n.kind n.ownText? slots, bound)
termination_by (n.tree.size, 0)
decreasing_by exact Prod.Lex.left _ _ n.sizeOfChildren_lt

def toSlots (bound : List String) :
    List (Child SourceNode) → List (Role × Pattern) × List String
  | [] => ([], bound)
  | c :: rest =>
    let (p, bound) := toPattern bound c.node c.role
    let (slots, bound) := toSlots bound rest
    ((c.role, p) :: slots, bound)
termination_by cs => (SourceNode.sizeOfChildren cs, 1)
decreasing_by
  · simp only [SourceNode.sizeOfChildren, List.map_cons, ParseTree.sizeAll, Prod.lex_def]
    omega
  · have := c.node.tree.size_pos
    apply Prod.Lex.left
    simp only [SourceNode.sizeOfChildren, List.map_cons, ParseTree.sizeAll]
    omega

end

/-- The node that a template denotes: the only one in the file, or in the body of the function
around a fragment. -/
def locate? (s : ParsedSource) (wrapped : Bool) : Option SourceNode := do
  let holder ←
    if wrapped then do
      let function ← s.root.soleNamed?
      function.below.find? fun c => c.label.field == some "body"
    else some s.root
  let n ← holder.soleNamed?
  n.peel

end Template
end StructuralSearch
