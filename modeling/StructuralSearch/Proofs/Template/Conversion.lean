import StructuralSearch.Proofs.Pattern.Checking
import StructuralSearch.Proofs.Source.Order
import StructuralSearch.Template.Basic

/-!
# What compiling a template does

A template that compiles denotes a node in the parse of its code, and its pattern is the conversion
of that node. Conversion reads the metavariables from the placeholders that it finds there, which
need not be those that stand in the text.
-/
namespace StructuralSearch

namespace SourceNode

theorem peel_of_soleNamed? {n inner : SourceNode} (hinner : n.soleNamed? = some inner)
    (h : n.onlyTerminates) : n.peel = inner.peel := by
  rw [peel, if_pos h]
  split
  · rename_i other hother
    cases hinner.symm.trans hother
    rfl
  · rename_i hnone
    cases hinner.symm.trans hnone

theorem peel_of_not_onlyTerminates {n : SourceNode} (h : ¬n.onlyTerminates) :
    n.peel = some n := by
  rw [peel, if_neg h]

end SourceNode

namespace Template

open Except (mapError_error mapError_ok)

/-! ## Conversion -/

theorem toPattern_of_found {bound : List String} {n : SourceNode} {slot : Role} {name : String}
    {kind : MetavariableKind} (h : n.metavariable? = some (name, kind)) :
    toPattern bound n slot = metavariablePattern bound name kind slot := by
  rw [toPattern, h]

theorem toPattern_of_literal {bound : List String} {n : SourceNode} {slot : Role}
    (h : n.metavariable? = none) :
    toPattern bound n slot =
      (.literal n.kind n.ownText? (toSlots bound n.children).1, (toSlots bound n.children).2) := by
  rw [toPattern, h]

theorem toSlots_nil (bound : List String) : toSlots bound [] = ([], bound) := by
  rw [toSlots]

theorem toSlots_cons (bound : List String) (c : Child SourceNode)
    (rest : List (Child SourceNode)) :
    toSlots bound (c :: rest) =
      ((c.role, (toPattern bound c.node c.role).1) ::
        (toSlots (toPattern bound c.node c.role).2 rest).1,
        (toSlots (toPattern bound c.node c.role).2 rest).2) := by
  rw [toSlots]

/-- The metavariables read from the placeholders of a template, in the order of their places. -/
def decoded (n : SourceNode) : List (String × MetavariableKind) :=
  match n.metavariable? with
  | some found => [found]
  | none => n.children.attach.flatMap fun c => decoded c.1.node
termination_by n.tree.size
decreasing_by exact SourceNode.size_lt_of_mem_children c.2

theorem decoded_of_found {n : SourceNode} {found : String × MetavariableKind}
    (h : n.metavariable? = some found) : decoded n = [found] := by
  rw [decoded, h]

theorem decoded_of_literal {n : SourceNode} (h : n.metavariable? = none) :
    decoded n = n.children.flatMap fun c => decoded c.node := by
  rw [decoded, h]
  exact flatMap_attach n.children fun c => decoded c.node

/-! ## Compilation -/

/-- The node that the code of a template denotes in its parse. -/
def denoted? (parser : Parser) (language : Language) (source : String) : Option SourceNode := do
  let (code, _) ← (withPlaceholders source).toOption
  let (parsed, wrapped) ← (parseCode parser language code).toOption
  locate? parsed wrapped

/-- A template compiles when it denotes a node whose conversion is a pattern fit for matching. Its
metavariables are those of the text. -/
theorem compile_eq_ok_iff {parser : Parser} {language : Language} {source : String}
    {t : Template} : compile parser language source = .ok t ↔
      ∃ root, denoted? parser language source = some root ∧
        CheckedPattern.ofPattern (toPattern [] root .root).1 = .ok t.pattern ∧
        (withPlaceholders source).map (·.2) = .ok t.metavariables ∧
        t.source = source ∧ t.language = language := by
  obtain ⟨source', language', metavariables, pattern⟩ := t
  rw [compile, denoted?]
  cases withPlaceholders source with
  | error fault => simp [bind, Except.bind, mapError_error, Except.toOption]
  | ok normal =>
    obtain ⟨code, found⟩ := normal
    cases hparse : parseCode parser language code with
    | error fault => simp [bind, Except.bind, mapError_ok, Except.toOption, hparse]
    | ok parse =>
      obtain ⟨parsed, wrapped⟩ := parse
      cases hroot : locate? parsed wrapped with
      | none => simp [bind, Except.bind, mapError_ok, Except.toOption, hparse, hroot]
      | some root =>
        cases hpattern : CheckedPattern.ofPattern (toPattern [] root .root).1 with
        | error fault =>
          simp [bind, Except.bind, mapError_ok, mapError_error, Except.toOption, hparse, hroot,
            hpattern]
        | ok p =>
          simp [bind, Except.bind, mapError_ok, Except.toOption, Except.map, hparse, hroot, hpattern,
            eq_comm, and_comm, and_left_comm, and_assoc]

/-- Code that parses without errors need not be wrapped. -/
theorem denoted?_of_parse {parser : Parser} {language : Language} {source code : String}
    {found : List Metavariable} {tree : ParseTree}
    (hcode : withPlaceholders source = .ok (code, found))
    (hparse : parser language code = some ⟨tree, false⟩) :
    denoted? parser language source = locate? ⟨language, code, tree, false⟩ false := by
  have hfile : parseCode parser language code = .ok (⟨language, code, tree, false⟩, false) := by
    simp [parseCode, Parser.parse, hparse, bind, Except.bind]
  simp only [denoted?, hcode, hfile, Except.toOption, Option.bind_eq_bind, Option.bind_some]

end Template
end StructuralSearch
