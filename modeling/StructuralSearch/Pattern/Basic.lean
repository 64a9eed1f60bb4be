import StructuralSearch.Tree.View

/-!
# Patterns

A pattern describes a run of sibling nodes, often a single one, and may give names to parts of what
it matches.
-/
namespace StructuralSearch

inductive Pattern where
  /-- One node, whatever it is; named, it is captured. -/
  | any (name : Option String)
  /-- Captures the nodes that the inner pattern matches. -/
  | capture (name : String) (inner : Pattern)
  /-- The inner pattern or nothing, in that order of preference. -/
  | optional (inner : Pattern)
  /-- The inner pattern, between `min` and `max` times, the more the better. -/
  | repetition (inner : Pattern) (min : Nat) (max : Option Nat)
  /-- One of the alternatives, the earlier the better. -/
  | choice (alternatives : List Pattern)
  /-- One node with the same content as each node captured under the name before. -/
  | backreference (name : String)
  /-- One node of the kind, with the text if one is given, whose children match the slots. -/
  | literal (kind : String) (text : Option String) (slots : List (Role × Pattern))
  /-- The inner pattern, on children whose roles accept the construct. -/
  | adapter (construct : Construct) (inner : Pattern)
  deriving Inhabited

namespace Pattern

def star (inner : Pattern) : Pattern :=
  .repetition inner 0 none

def plus (inner : Pattern) : Pattern :=
  .repetition inner 1 none

/-- A node with this text and no children. -/
def leaf (kind text : String) : Pattern :=
  .literal kind (some text) []

/-- The pattern that describes a tree node by node and captures nothing. -/
def ofTree {ν : Type} (v : TreeView ν) (n : ν) : Pattern :=
  .literal (v.kind n) (v.text n) ((v.children n).attach.map fun c => (c.1.role, ofTree v c.1.node))
termination_by v.rank n
decreasing_by exact v.rank_lt n c.1 c.2

mutual

/-- The same pattern, where slots are compared by the names of their roles. -/
def same : Pattern → Pattern → Bool
  | .any a, .any b => a == b
  | .capture a p, .capture b q => a == b && same p q
  | .optional p, .optional q => same p q
  | .repetition p a b, .repetition q c d => a == c && b == d && same p q
  | .choice ps, .choice qs => sameAll ps qs
  | .backreference a, .backreference b => a == b
  | .literal a s ps, .literal b t qs => a == b && s == t && sameSlots ps qs
  | .adapter k p, .adapter l q => k == l && same p q
  | _, _ => false
termination_by structural p => p

def sameAll : List Pattern → List Pattern → Bool
  | [], [] => true
  | p :: ps, q :: qs => same p q && sameAll ps qs
  | _, _ => false
termination_by structural ps => ps

def sameSlots : List (Role × Pattern) → List (Role × Pattern) → Bool
  | [], [] => true
  | (r, p) :: ps, (s, q) :: qs => r == s && same p q && sameSlots ps qs
  | _, _ => false
termination_by structural ps => ps

end

instance : BEq Pattern := ⟨same⟩

end Pattern
end StructuralSearch
