import StructuralSearch.Source.Node

/-!
# Walking a tree

A walk keeps no list of nodes to come back to. It steps from a node to its first child, or else to
the next sibling of the node or of the nearest node above that has one, and is over where there is
none. `left` counts the nodes that are still to come, so every step lowers it.
-/
namespace StructuralSearch

namespace SourceNode

def firstChild? (n : SourceNode) : Option SourceNode :=
  n.tree.children[0]?.map fun t => ⟨n.source, (0, n.tree) :: n.trail, t⟩

def nextSibling? (n : SourceNode) : Option SourceNode :=
  match n.trail with
  | (i, above) :: rest =>
    above.children[i + 1]?.map fun t => ⟨n.source, (i + 1, above) :: rest, t⟩
  | [] => none

def parent? (n : SourceNode) : Option SourceNode :=
  match n.trail with
  | (_, above) :: rest => some ⟨n.source, rest, above⟩
  | [] => none

theorem length_trail_of_parent? {n above : SourceNode} (h : n.parent? = some above) :
    above.trail.length < n.trail.length := by
  unfold parent? at h
  split at h
  · rename_i heq
    cases h
    rw [heq]
    exact Nat.lt_succ_self _
  · cases h

/-- The next sibling of the node or of the nearest node above that has one. -/
def climb? (n : SourceNode) : Option SourceNode :=
  match n.nextSibling? with
  | some next => some next
  | none =>
    match h : n.parent? with
    | some above =>
      have := length_trail_of_parent? h
      climb? above
    | none => none
termination_by n.trail.length

/-- The node that a walk visits after this one. -/
def next? (n : SourceNode) : Option SourceNode :=
  n.firstChild?.or n.climb?

/-- The number of nodes behind the siblings on the way up: those of the siblings after each of the
places in the trail. -/
def behind : List (Nat × ParseTree) → Nat
  | [] => 0
  | (i, above) :: rest => ParseTree.sizeAll (above.children.drop (i + 1)) + behind rest

/-- The number of nodes that a walk from this one visits. -/
def left (n : SourceNode) : Nat :=
  n.tree.size + behind n.trail

theorem sizeAll_drop {ts : List ParseTree} {i : Nat} {t : ParseTree} (h : ts[i]? = some t) :
    ParseTree.sizeAll (ts.drop i) = t.size + ParseTree.sizeAll (ts.drop (i + 1)) := by
  obtain ⟨hi, rfl⟩ := List.getElem?_eq_some_iff.1 h
  rw [List.drop_eq_getElem_cons hi, ParseTree.sizeAll]

theorem left_firstChild? {n first : SourceNode} (h : n.firstChild? = some first) :
    first.left < n.left := by
  obtain ⟨t, ht, rfl⟩ := Option.map_eq_some_iff.1 h
  obtain ⟨source, trail, label, children⟩ := n
  have hsize := sizeAll_drop ht
  simp only [left, behind, ParseTree.size, ParseTree.children,
    List.drop_zero] at hsize ⊢
  omega

theorem left_nextSibling? {n next : SourceNode} (h : n.nextSibling? = some next) :
    next.left = behind n.trail := by
  unfold nextSibling? at h
  split at h
  · rename_i i above rest heq
    obtain ⟨t, ht, rfl⟩ := Option.map_eq_some_iff.1 h
    rw [heq, behind, sizeAll_drop ht, Nat.add_assoc]
    rfl
  · cases h

theorem behind_parent?_le {n above : SourceNode} (h : n.parent? = some above) :
    behind above.trail ≤ behind n.trail := by
  unfold parent? at h
  split at h
  · rename_i heq
    cases h
    rw [heq]
    exact Nat.le_add_left _ _
  · cases h

theorem left_climb?_le {n next : SourceNode} (h : n.climb? = some next) :
    next.left ≤ behind n.trail := by
  fun_induction climb? n with
  | case1 n sibling hsibling =>
    cases h
    exact Nat.le_of_eq (left_nextSibling? hsibling)
  | case2 n _ above habove _ ih => exact Nat.le_trans (ih h) (behind_parent?_le habove)
  | case3 => cases h

theorem left_next?_lt {n next : SourceNode} (h : n.next? = some next) : next.left < n.left := by
  rcases Option.or_eq_some_iff.1 h with hfirst | ⟨-, hclimb⟩
  · exact left_firstChild? hfirst
  · have hle := left_climb?_le hclimb
    have hpos := n.tree.size_pos
    show next.left < n.tree.size + behind n.trail
    omega

/-- The nodes that a walk visits, from this one on. -/
def walk (n : SourceNode) : List SourceNode :=
  match h : n.next? with
  | some next =>
    have := left_next?_lt h
    n :: walk next
  | none => [n]
termination_by n.left

end SourceNode

/-- Every node of the tree, in the order in which a walk visits them. -/
def ParsedSource.nodes (s : ParsedSource) : List SourceNode :=
  s.root.walk

end StructuralSearch
