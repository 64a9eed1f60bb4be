import StructuralSearch.Text.Letters

/-!
# Roles

A role says what a child is to its parent: the value of a declaration, a statement of a block. It
may also say which construct it expects there. Two roles are the same when their names are.
-/
namespace StructuralSearch

/-- The constructs that a role can expect. -/
inductive Construct where
  | type
  | expression
  | statement
  | block
  | variableInitializer
  deriving DecidableEq, Repr

namespace Construct

def all : List Construct :=
  [type, expression, statement, block, variableInitializer]

def name : Construct → String
  | type => "type"
  | expression => "expression"
  | statement => "statement"
  | block => "block"
  | variableInitializer => "variable_initializer"

/-- The construct of a name, in whatever case its letters are. -/
def ofName? (name : String) : Option Construct :=
  all.find? fun k => Text.sameLetters k.name name

theorem mem_all (k : Construct) : k ∈ all := by
  cases k <;> simp [all]

end Construct

structure Role where
  name : String
  expects : Option Construct := none
  deriving Repr

namespace Role

instance : BEq Role := ⟨fun r s => r.name == s.name⟩

instance : Hashable Role := ⟨fun r => hash r.name⟩

theorem beq_iff {r s : Role} : (r == s) = true ↔ r.name = s.name := by
  show (r.name == s.name) = true ↔ _
  exact beq_iff_eq

/-- The role of a node that stands by itself. -/
def root : Role := { name := "<root>" }

/-- The role of a child about which nothing more is known. -/
def child : Role := { name := "child" }

def isRoot (r : Role) : Bool :=
  r == root

/-- A node by itself can be any construct; a child only the one that its role expects. -/
def accepts (r : Role) (k : Construct) : Bool :=
  r.isRoot || r.expects == some k

end Role
end StructuralSearch
