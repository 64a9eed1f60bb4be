import StructuralSearch.Role

/-!
# Roles in source code

The role of a node follows from the kind of its parent and from its field there.
-/
namespace StructuralSearch.Source

/-- The role of a node in a list of statements. -/
def statement : Role := { name := "statement", expects := some .statement }

/-- The kinds whose children are statements. -/
def statementLists : List String :=
  ["block", "statement_block", "source_file", "module", "program"]

/-- The kinds whose value initialises a variable. -/
def declarations : List String :=
  ["let_declaration", "const_item", "static_item", "variable_declarator"]

def listsStatements (kind : String) : Bool :=
  statementLists.contains kind

/-- What a field expects below a parent of the given kind. -/
def fieldExpects (parent field : String) : Option Construct :=
  if ["type", "return_type"].contains field then some .type
  else if ["body", "consequence"].contains field then some .block
  else if field = "value" && declarations.contains parent then some .variableInitializer
  else if ["value", "condition", "left", "right", "argument", "function"].contains field then
    some .expression
  else none

/-- The role of a child: its field's, or a statement's, or none in particular. -/
def roleBelow (parent : String) (field : Option String) (named : Bool) : Role :=
  match field with
  | some field => { name := field, expects := fieldExpects parent field }
  | none => if named && listsStatements parent then statement else .child

end StructuralSearch.Source
