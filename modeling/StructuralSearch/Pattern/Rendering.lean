import StructuralSearch.Pattern.Basic
import StructuralSearch.Text.Quoted

/-!
# Patterns as text

A metavariable is written with a dollar sign, a back-reference with a backslash, a quantifier after
what it repeats, and a literal as its kind, text and slots between parentheses.
-/
namespace StructuralSearch.Pattern

/-- The mark of a repetition: a star, a plus, or the bounds between braces. -/
def quantifier : Nat → Option Nat → String
  | 0, none => "*"
  | 1, none => "+"
  | min, none => "\x7b" ++ toString min ++ ",\x7d"
  | min, some max => "\x7b" ++ toString min ++ "," ++ toString max ++ "\x7d"

/-- What stands before a slot's pattern: its role, unless nothing is known about it. -/
def slotLabel (r : Role) : String :=
  if r == Role.child then "" else r.name ++ ": "

mutual

def render : Pattern → String
  | .any none => "$_"
  | .any (some name) => "$" ++ name
  | .capture name inner => "$" ++ name ++ "=" ++ render inner
  | .optional inner => render inner ++ "?"
  | .repetition inner min max => render inner ++ quantifier min max
  | .choice alternatives => "(" ++ " | ".intercalate (renderAll alternatives) ++ ")"
  | .backreference name => "\\" ++ name
  | .literal kind text slots =>
    if text = some kind && slots.isEmpty then Text.quoted kind
    else
      let shown := match text with
        | some text => " " ++ Text.quoted text
        | none => ""
      "(" ++ kind ++ shown ++ renderSlots slots ++ ")"
  | .adapter construct inner => "<" ++ construct.name ++ " " ++ render inner ++ ">"
termination_by structural p => p

def renderAll : List Pattern → List String
  | [] => []
  | p :: ps => render p :: renderAll ps
termination_by structural ps => ps

def renderSlots : List (Role × Pattern) → String
  | [] => ""
  | (r, p) :: rest => " " ++ slotLabel r ++ render p ++ renderSlots rest
termination_by structural slots => slots

end

/-- A sequence of patterns, one space between them. -/
def renderSequence (elements : List Pattern) : String :=
  " ".intercalate (elements.map render)

end StructuralSearch.Pattern
