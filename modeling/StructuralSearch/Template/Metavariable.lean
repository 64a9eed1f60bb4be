import StructuralSearch.SearchFault
import StructuralSearch.Template.Segment

/-!
# Metavariables

A template is code in which `$NAME` stands for one node and `$$$NAME` for a run of nodes. Before the
code is parsed each metavariable is put into the shape of an identifier, its placeholder, from which
its name and its kind can be read back.
-/
namespace StructuralSearch.Template

inductive MetavariableKind where
  /-- Stands for one node. -/
  | single
  /-- Stands for a run of nodes. -/
  | multiple
  deriving DecidableEq, Repr

namespace MetavariableKind

/-- The kind that a number of dollar signs announces. -/
def ofDollars? : Nat → Option MetavariableKind
  | 1 => some single
  | 3 => some multiple
  | _ => none

/-- What the placeholders of the kind begin with. -/
def placeholderStart : MetavariableKind → String
  | single => "__HEDDLE_METAVAR_"
  | multiple => "__HEDDLE_METAVARS_"

end MetavariableKind

/-- What placeholders end with. -/
def placeholderEnd : String := "__"

/-- The name of metavariables that bind nothing. -/
def wildcard : String := "_"

/-- An occurrence of a metavariable, at the byte offset of its first dollar sign. -/
structure Metavariable where
  name : String
  kind : MetavariableKind
  offset : Nat
  deriving DecidableEq, Repr

def Metavariable.isWildcard (m : Metavariable) : Bool :=
  m.name == wildcard

def placeholder (name : String) (kind : MetavariableKind) : String :=
  kind.placeholderStart ++ name ++ placeholderEnd

/-- The name in a placeholder of the kind. -/
def nameInPlaceholder? (kind : MetavariableKind) (text : String) : Option String := do
  let rest ← kind.placeholderStart.toList.isPrefixOf? text.toList
  let name ← placeholderEnd.toList.isSuffixOf? rest
  if name.isEmpty then none else some (String.ofList name)

/-- The metavariable that a text is the placeholder of. -/
def ofPlaceholder? (text : String) : Option (String × MetavariableKind) :=
  ((nameInPlaceholder? .single text).map (·, .single)).or
    ((nameInPlaceholder? .multiple text).map (·, .multiple))

/-- Puts placeholders in the place of references and lists these, from the byte offset on. -/
def placeholdersFrom (offset : Nat) :
    List Segment → Except MetavariableFault (List Char × List Metavariable)
  | [] => .ok ([], [])
  | .char c :: rest => do
    let (text, found) ← placeholdersFrom (offset + c.utf8Size) rest
    .ok (c :: text, found)
  | .reference dollars name :: rest =>
    match MetavariableKind.ofDollars? dollars with
    | none => .error (.badPrefix offset dollars)
    | some kind =>
      if name.isEmpty then .error (.noName offset)
      else do
        let (text, found) ← placeholdersFrom (offset + dollars + name.utf8ByteSize) rest
        .ok ((placeholder name kind).toList ++ text, ⟨name, kind, offset⟩ :: found)

/-- The least name of a run that occurs more than once. -/
def repeatedRun? (found : List Metavariable) : Option String :=
  let named := found.filter fun m => !m.isWildcard
  let repeated := named.filter fun m => m.kind = .multiple && 1 < named.countP (·.name == m.name)
  (repeated.map (·.name)).mergeSort.head?

/-- The template with placeholders for metavariables, and its metavariables in order. A run may
occur only once, because two runs cannot be compared node by node. -/
def withPlaceholders (source : String) : Except MetavariableFault (String × List Metavariable) := do
  let (text, found) ← placeholdersFrom 0 (Segment.ofText source.toList)
  match repeatedRun? found with
  | some name => .error (.repeatedRun name)
  | none => .ok (String.ofList text, found)

end StructuralSearch.Template
