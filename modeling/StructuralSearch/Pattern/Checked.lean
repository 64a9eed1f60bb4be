import StructuralSearch.Pattern.Basic

/-!
# Checked patterns

A pattern is fit for matching when its choices have alternatives, its names are not empty, its
bounds are in order, each back-reference comes after a capture of its name, and each adapter agrees
with the slot that it stands in. Checking reads a sequence from left to right and collects the names
that it captures; after a choice, those that any of its alternatives captures.
-/
namespace StructuralSearch

inductive PatternFault where
  | noAlternatives
  | emptyName
  | boundsReversed (min max : Nat)
  | unknownReference (name : String)
  | adapterMismatch (role : String) (expected found : Construct)
  deriving DecidableEq, Repr

def PatternFault.message : PatternFault → String
  | noAlternatives => "choice has no alternatives"
  | emptyName => "capture names must not be empty"
  | boundsReversed min max =>
    "repeat bounds are inverted: min " ++ toString min ++ " exceeds max " ++ toString max
  | unknownReference name => "back-reference to undeclared capture '" ++ name ++ "'"
  | adapterMismatch role expected found =>
    "slot '" ++ role ++ "' expects " ++ expected.name ++ " but holds a " ++ found.name ++ " adapter"

namespace Pattern

/-- Adds a name at the end, unless it is there. -/
def addName (names : List String) (name : String) : List String :=
  if names.contains name then names else names ++ [name]

/-- Adds a captured name to those known. -/
def declare (known : List String) (name : String) : Except PatternFault (List String) :=
  if name.isEmpty then .error .emptyName else .ok (addName known name)

/-- The bounds of a repetition, when there are two, are in order. -/
def checkBounds (min : Nat) : Option Nat → Except PatternFault Unit
  | some max => if min > max then .error (.boundsReversed min max) else .ok ()
  | none => .ok ()

/-- A slot that expects a construct holds no adapter to another one. -/
def checkAdapter (slot : Option Role) (found : Construct) : Except PatternFault Unit :=
  match slot with
  | some ⟨role, some expected⟩ =>
    if expected = found then .ok () else .error (.adapterMismatch role expected found)
  | _ => .ok ()

mutual

/-- Checks a pattern in the given slot after the `known` names; gives the names known after it. -/
def check (slot : Option Role) : Pattern → List String → Except PatternFault (List String)
  | .any none, known => .ok known
  | .any (some name), known => declare known name
  | .capture name inner, known => do
    let names ← check slot inner known
    declare names name
  | .optional inner, known => check slot inner known
  | .repetition inner min max, known => do
    checkBounds min max
    check slot inner known
  | .choice alternatives, known =>
    if alternatives.isEmpty then .error .noAlternatives
    else checkAlternatives slot known alternatives known
  | .backreference name, known =>
    if name.isEmpty then .error .emptyName
    else if known.contains name then .ok known
    else .error (.unknownReference name)
  | .literal _ _ slots, known => checkSlots slots known
  | .adapter construct inner, known => do
    checkAdapter slot construct
    check slot inner known
termination_by structural p => p

/-- Checks alternatives, each after the names known `before` all of them; `union` collects what any
of them captures. -/
def checkAlternatives (slot : Option Role) (before : List String) :
    List Pattern → List String → Except PatternFault (List String)
  | [], union => .ok union
  | p :: rest, union => do
    let names ← check slot p before
    checkAlternatives slot before rest (names.foldl addName union)
termination_by structural ps => ps

def checkSlots : List (Role × Pattern) → List String → Except PatternFault (List String)
  | [], known => .ok known
  | (role, p) :: rest, known => do
    let names ← check (some role) p known
    checkSlots rest names
termination_by structural slots => slots

end

/-- Checks patterns one after the other, each in no slot. -/
def checkSequence : List Pattern → List String → Except PatternFault (List String)
  | [], known => .ok known
  | p :: rest, known => do
    let names ← check none p known
    checkSequence rest names

end Pattern

/-- Patterns for adjacent siblings, with the names that they capture in order of first capture. -/
structure CheckedPattern where
  elements : List Pattern
  captures : List String
  checked : Pattern.checkSequence elements [] = .ok captures

namespace CheckedPattern

def ofSequence (elements : List Pattern) : Except PatternFault CheckedPattern :=
  match h : Pattern.checkSequence elements [] with
  | .ok captures => .ok ⟨elements, captures, h⟩
  | .error e => .error e

def ofPattern (p : Pattern) : Except PatternFault CheckedPattern :=
  ofSequence [p]

end CheckedPattern
end StructuralSearch
