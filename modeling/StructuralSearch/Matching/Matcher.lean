import StructuralSearch.Matching.Captures
import StructuralSearch.Matching.Cursor
import StructuralSearch.Matching.Target
import StructuralSearch.Pattern.Checked

/-!
# Matchers

A matcher looks for the ways in which patterns match adjacent siblings, the preferred ones first. It
holds the goals that are left, a cursor, the log of captures, and a stack of forks, which are places
where it could have gone another way. Each step takes one goal; when a goal fails, or after a match,
the matcher goes back to the latest fork, with the log and the cursor that belong to it.
-/
namespace StructuralSearch

variable {ν : Type}

/-- What is left to do before the siblings are matched. -/
inductive Goal where
  /-- Match the pattern in the slot from the cursor on. -/
  | find (p : Pattern) (slot : Role)
  /-- Bind the siblings matched since `start`. -/
  | record (name : String) (start : Nat)
  /-- Go on with a repetition after `count` times, the last of which began at `since`. -/
  | again (inner : Pattern) (min : Nat) (max : Option Nat) (slot : Role) (count : Nat)
      (since : Option Nat)
  /-- The siblings matched since `start` have roles that accept the construct. -/
  | expect (construct : Construct) (start : Nat)
  /-- All children are matched: go on past their parent. -/
  | leave

/-- The way that a fork leaves to be tried. -/
inductive Branch where
  /-- On with the goals of the fork. -/
  | goOn
  /-- `first` before the goals of the fork, and the `later` ones in its place after that. -/
  | oneOf (first : Pattern) (later : List Pattern) (slot : Role)

/-- A place to go back to: the length of the log, the cursor, and the goals from there on. -/
structure Fork (ν : Type) where
  logLength : Nat
  cursor : Cursor ν
  goals : List Goal
  branch : Branch

inductive Mode where
  | forward
  | backward
  | finished
  deriving DecidableEq, Repr

structure Matcher (ν : Type) where
  goals : List Goal
  cursor : Cursor ν
  /-- The captures so far. -/
  log : Log ν := .empty
  /-- The latest first. -/
  forks : List (Fork ν) := []
  mode : Mode := .forward
  /-- The steps taken. -/
  steps : Nat := 0

/-- A repetition may go on after `count` times. -/
def mayRepeat (max : Option Nat) (count : Nat) : Bool :=
  max.all fun limit => count < limit

namespace Matcher

/-- Before the first step, with the elements to match against all of the siblings. -/
def start (elements : List Pattern) (siblings : List (Child ν)) : Matcher ν where
  goals := elements.map fun p => .find p .root
  cursor := .start siblings

/-- Leaves a fork here. -/
def fork (m : Matcher ν) (goals : List Goal) (branch : Branch) : Matcher ν :=
  { m with forks := ⟨m.log.length, m.cursor, goals, branch⟩ :: m.forks }

def withGoals (m : Matcher ν) (goals : List Goal) : Matcher ν :=
  { m with goals }

/-- Goes on past the current node. -/
def pass (m : Matcher ν) (rest : List Goal) : Matcher ν :=
  { m with goals := rest, cursor := m.cursor.advance }

/-- Matches a pattern in a slot, with the `rest` of the goals after it; nothing when it fails. -/
def find (t : Target ν) (m : Matcher ν) (slot : Role) (rest : List Goal) :
    Pattern → Option (Matcher ν)
  | .any none => (m.cursor.fitting? slot).map fun _ => m.pass rest
  | .any (some name) =>
    (m.cursor.fitting? slot).map fun child =>
      { m.pass rest with log := m.log.add ⟨name, some child.node⟩ }
  | .capture name inner =>
    some (m.withGoals (.find inner slot :: .record name m.cursor.level.index :: rest))
  | .optional inner => some ((m.fork rest .goOn).withGoals (.find inner slot :: rest))
  | .repetition inner min max =>
    some (m.withGoals (.again inner min max slot 0 none :: rest))
  | .choice [] => none
  | .choice [only] => some (m.withGoals (.find only slot :: rest))
  | .choice (first :: second :: later) =>
    some ((m.fork rest (.oneOf second later slot)).withGoals (.find first slot :: rest))
  | .backreference name =>
    (m.cursor.fitting? slot).bind fun child =>
      let bound := m.log.boundTo name
      if !bound.isEmpty && bound.all fun n => t.sameContent n child.node then some (m.pass rest)
      else none
  | .literal kind text slots =>
    (m.cursor.fitting? slot).bind fun child =>
      if t.kind child.node == kind && text.all (t.hasText child.node) then
        some
          { m with
            goals := slots.map (fun s => .find s.2 s.1) ++ .leave :: rest
            cursor := m.cursor.enter (t.children child.node) }
      else none
  | .adapter construct inner =>
    some (m.withGoals (.find inner slot :: .expect construct m.cursor.level.index :: rest))

/-- Goes on with a repetition: once more if it may, leaving a fork where it could stop. A time that
matched no sibling was the last. -/
def again (m : Matcher ν) (inner : Pattern) (min : Nat) (max : Option Nat) (slot : Role)
    (count : Nat) (since : Option Nat) (rest : List Goal) : Matcher ν :=
  let position := m.cursor.level.index
  let onceMore : List Goal :=
    .find inner slot :: .again inner min max slot (count + 1) (some position) :: rest
  if since = some position then m.withGoals rest
  else if count < min then m.withGoals onceMore
  else if mayRepeat max count then (m.fork rest .goOn).withGoals onceMore
  else m.withGoals rest

/-- Works on one goal, with the `rest` of the goals after it; nothing when the goal fails. -/
def perform (t : Target ν) (m : Matcher ν) (rest : List Goal) : Goal → Option (Matcher ν)
  | .find p slot => m.find t slot rest p
  | .record name start =>
    let nodes := (m.cursor.level.passedSince start).map (·.node)
    some { m with goals := rest, log := m.log.addRun name nodes }
  | .again inner min max slot count since =>
    some (m.again inner min max slot count since rest)
  | .expect construct start =>
    if (m.cursor.level.passedSince start).all fun c => c.role.accepts construct then
      some (m.withGoals rest)
    else none
  | .leave => m.cursor.leave?.map fun cursor => { m with goals := rest, cursor }

/-- Goes back to the latest fork; there is nothing left to find when there is none. -/
def backtrack (m : Matcher ν) : Matcher ν :=
  match m.forks with
  | [] => { m with mode := .finished }
  | fork :: older =>
    let back := { m with mode := .forward, log := m.log.backTo fork.logLength, cursor := fork.cursor }
    match fork.branch with
    | .goOn => { back with goals := fork.goals, forks := older }
    | .oneOf first [] slot => { back with goals := .find first slot :: fork.goals, forks := older }
    | .oneOf first (second :: later) slot =>
      { back with
        goals := .find first slot :: fork.goals
        forks := { fork with branch := .oneOf second later slot } :: older }

/-- One step, and the match that it completes, if it does: with no goal left, at the end of the
siblings. -/
def step (t : Target ν) (m : Matcher ν) : Option (Match ν) × Matcher ν :=
  match m.mode with
  | .finished => (none, m)
  | .backward => (none, { m.backtrack with steps := m.steps + 1 })
  | .forward =>
    match m.goals with
    | [] =>
      (if m.cursor.level.atEnd then some (.ofLog m.log) else none,
        { m with mode := .backward, steps := m.steps + 1 })
    | goal :: rest =>
      match m.perform t rest goal with
      | some next => (none, { next with steps := m.steps + 1 })
      | none => (none, { m with mode := .backward, steps := m.steps + 1 })

end Matcher
end StructuralSearch
