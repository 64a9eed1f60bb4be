import StructuralSearch.Replacing.Replacement

/-!
# Replacement rules

A rule replaces the matches of its template. Of matches that lie within each other only the
outermost is replaced.
-/
namespace StructuralSearch

structure ReplacementRule where
  template : Template
  replacement : String

/-- A text after replacing, and the number of matches replaced. -/
structure Replaced where
  text : String
  replacements : Nat
  deriving DecidableEq, Repr

namespace Replaced

def hasChanges (r : Replaced) : Bool :=
  0 < r.replacements

end Replaced

namespace ReplacementRule

/-- A rule, if the replacement refers only to metavariables of the template and to wildcards. -/
def ofTemplate (template : Template) (replacement : String) : Except SearchFault ReplacementRule :=
  let known := template.metavariables.map (·.name)
  match (Replacement.references replacement).find? fun name =>
      name != Template.wildcard && !known.contains name with
  | some name => .error (.unboundName name)
  | none => .ok { template, replacement }

/-- The matches that begin at `covered` or later, each after the end of the one before. -/
def outermostFrom (covered : Nat) : List Finding → List Finding
  | [] => []
  | found :: rest =>
    if found.range.start < covered then outermostFrom covered rest
    else found :: outermostFrom found.range.stop rest

/-- The matches that lie in no earlier one. -/
def outermost (matched : List Finding) : List Finding :=
  outermostFrom 0 matched

/-- Replaces one match in a text. -/
def replaceOne (replacement : String) (found : Finding) (text : String) :
    Except SearchFault String :=
  match Text.splice? text found.range (Replacement.substitute replacement found) with
  | some text => .ok text
  | none => .error (.splitsCharacter found.range)

/-- Replaces matches from the last to the first, so that the ranges of those still to come hold. -/
def replaceAll (replacement : String) (matched : List Finding) (text : String) :
    Except SearchFault String :=
  matched.foldrM (replaceOne replacement) text

/-- Applies a rule to a source in the given language, replacing among the first `limit` matches. -/
def apply (parser : Parser) (language : Language) (limit : Nat) (rule : ReplacementRule)
    (source : String) : Except SearchFault Replaced :=
  if rule.template.language ≠ language then
    .error (.otherLanguage rule.template.language language)
  else do
    let parsed ← parser.parse language source
    let matched := outermost (rule.template.findings parsed limit)
    let text ← replaceAll rule.replacement matched source
    .ok { text, replacements := matched.length }

/-- Applies rules in turn, each to what the one before it gave. -/
def applyEach (parser : Parser) (language : Language) (limit : Nat) :
    List ReplacementRule → String → Except SearchFault Replaced
  | [], source => .ok { text := source, replacements := 0 }
  | rule :: rules, source => do
    let first ← rule.apply parser language limit source
    let others ← applyEach parser language limit rules first.text
    .ok { text := others.text, replacements := first.replacements + others.replacements }

end ReplacementRule
end StructuralSearch
