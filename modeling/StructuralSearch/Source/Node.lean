import StructuralSearch.Matching.Target
import StructuralSearch.Source.ParseTree
import StructuralSearch.Source.Role
import StructuralSearch.Text.Position
import StructuralSearch.Text.Quoted

/-!
# Source nodes

A source node is a place in a parse tree together with the text that was parsed. Seen as a tree it
has no comments, and only nodes without any children have text. Two source nodes have the same
content when they are of one kind and cover the same text.
-/
namespace StructuralSearch

structure SourceNode where
  source : String
  /-- The way up to the root: at each step the parent, and the index of the node below it. -/
  trail : List (Nat × ParseTree)
  tree : ParseTree

namespace SourceNode

def label (n : SourceNode) : NodeLabel :=
  n.tree.label

def kind (n : SourceNode) : String :=
  n.label.kind

def range (n : SourceNode) : Text.ByteRange :=
  n.label.range

/-- The text that the node covers. -/
def coveredText (n : SourceNode) : String :=
  (Text.slice? n.source n.range).getD ""

/-- The text of a node without children. -/
def ownText? (n : SourceNode) : Option String :=
  if n.tree.children.isEmpty then some n.coveredText else none

def startPosition (n : SourceNode) : Text.Position :=
  .ofOffset n.source n.range.start

def endPosition (n : SourceNode) : Text.Position :=
  .ofOffset n.source n.range.stop

/-- The indexes that lead from the node up to the root. They identify the node within its tree. -/
def path (n : SourceNode) : List Nat :=
  n.trail.map (·.1)

/-- The nodes above, the nearest first. -/
def ancestors (n : SourceNode) : List ParseTree :=
  n.trail.map (·.2)

/-- All nodes directly below, tokens and comments included. -/
def below (n : SourceNode) : List SourceNode :=
  n.tree.children.zipIdx.map fun c => ⟨n.source, (c.2, n.tree) :: n.trail, c.1⟩

/-- The nodes directly below in their roles, without comments. -/
def children (n : SourceNode) : List (Child SourceNode) :=
  (n.below.filter fun c => !c.label.extra).map fun c =>
    ⟨Source.roleBelow n.kind c.label.field c.label.named, c⟩

theorem size_lt_of_mem_below {n c : SourceNode} (h : c ∈ n.below) : c.tree.size < n.tree.size := by
  obtain ⟨⟨t, i⟩, hi, rfl⟩ := List.mem_map.1 h
  exact ParseTree.size_lt_of_mem_children (List.fst_mem_of_mem_zipIdx hi)

theorem mem_below_of_mem_children {n : SourceNode} {c : Child SourceNode} (h : c ∈ n.children) :
    c.node ∈ n.below := by
  obtain ⟨m, hm, rfl⟩ := List.mem_map.1 h
  exact (List.mem_filter.1 hm).1

theorem size_lt_of_mem_children {n : SourceNode} {c : Child SourceNode} (h : c ∈ n.children) :
    c.node.tree.size < n.tree.size :=
  size_lt_of_mem_below (mem_below_of_mem_children h)

def view : TreeView SourceNode where
  kind := kind
  text := ownText?
  children := children
  rank n := n.tree.size
  rank_lt _ _ h := size_lt_of_mem_children h

/-- The same kind and the same text covered. -/
def sameContent (a b : SourceNode) : Bool :=
  a.kind == b.kind && a.coveredText == b.coveredText

def target : Target SourceNode where
  toTreeView := view
  hasText := view.textIs
  sameContent := sameContent

/-- The node and all nodes below it, parents before children, in the order of the text. -/
def preOrder (n : SourceNode) : List SourceNode :=
  n :: n.below.attach.flatMap fun c => preOrder c.1
termination_by n.tree.size
decreasing_by exact size_lt_of_mem_below c.2

/-- The kind and the range. -/
def describe (n : SourceNode) : String :=
  "SourceNode \x7b kind: " ++ Text.quoted n.kind ++ ", range: " ++ n.range.toText ++ " \x7d"

end SourceNode

/-- A source text with its parse. -/
structure ParsedSource where
  language : Language
  text : String
  tree : ParseTree
  hasError : Bool

namespace ParsedSource

def root (s : ParsedSource) : SourceNode :=
  ⟨s.text, [], s.tree⟩

end ParsedSource
end StructuralSearch
