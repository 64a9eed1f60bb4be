import StructuralSearch.Tree.View

/-!
# Cursors

A cursor stands between siblings: those before it have been matched, those after it have not. Below
the top level it remembers the levels above, each standing at the node whose children come next.
-/
namespace StructuralSearch

variable {ν : Type}

/-- Siblings, of which the first `index` have been matched. -/
structure Level (ν : Type) where
  siblings : Array (Child ν)
  index : Nat

namespace Level

def atEnd (l : Level ν) : Bool :=
  l.siblings.size ≤ l.index

def current? (l : Level ν) : Option (Child ν) :=
  l.siblings[l.index]?

def advance (l : Level ν) : Level ν :=
  { l with index := l.index + 1 }

/-- The siblings matched since the cursor stood at `start`. -/
def passedSince (l : Level ν) (start : Nat) : List (Child ν) :=
  (l.siblings.extract start l.index).toList

end Level

structure Cursor (ν : Type) where
  level : Level ν
  /-- The levels above, the nearest first. -/
  outer : List (Level ν)

namespace Cursor

/-- Before the first of the siblings. -/
def start (siblings : List (Child ν)) : Cursor ν :=
  ⟨⟨siblings.toArray, 0⟩, []⟩

def advance (c : Cursor ν) : Cursor ν :=
  { c with level := c.level.advance }

/-- Before the first of the children of the current node. -/
def enter (c : Cursor ν) (children : List (Child ν)) : Cursor ν :=
  ⟨⟨children.toArray, 0⟩, c.level :: c.outer⟩

/-- Past the node whose children have all been matched. -/
def leave? (c : Cursor ν) : Option (Cursor ν) :=
  match c.outer with
  | above :: rest => if c.level.atEnd then some ⟨above.advance, rest⟩ else none
  | [] => none

/-- The current node, if its role fits the slot. A slot for a node by itself takes any role. -/
def fitting? (c : Cursor ν) (slot : Role) : Option (Child ν) :=
  c.level.current?.filter fun child => slot.isRoot || child.role == slot

end Cursor
end StructuralSearch
