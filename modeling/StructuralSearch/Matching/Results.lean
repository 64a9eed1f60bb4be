import StructuralSearch.Matching.Cost

/-!
# Matches

`Matcher.next` runs a matcher to its next match, and `Matcher.results` lists all of them, the
preferred ones first. Both end because every step lowers the cost.
-/
namespace StructuralSearch

variable {ν : Type}

namespace Matcher

/-- The next match, and the matcher that looks for those after it. -/
def next (t : Target ν) (m : Matcher ν) : Option (Match ν) × Matcher ν :=
  if done : m.mode = .finished then (none, m)
  else
    have lower := cost_step_lt t m done
    match h : m.step t with
    | (some found, after) => (some found, after)
    | (none, after) =>
      have : after.cost t < m.cost t := by rw [h] at lower; exact lower
      next t after
termination_by m.cost t

theorem cost_next_lt {t : Target ν} {m after : Matcher ν} {found : Match ν}
    (h : m.next t = (some found, after)) : after.cost t < m.cost t := by
  fun_induction next t m with
  | case1 m done => cases h
  | case2 m done lower found' after' hs =>
    cases h
    rw [hs] at lower
    exact lower
  | case3 m done lower after' hs lt ih => exact Nat.lt_trans (ih h) lt

/-- All matches still to be found. -/
def results (t : Target ν) (m : Matcher ν) : List (Match ν) :=
  match h : m.next t with
  | (some found, after) =>
    have := cost_next_lt h
    found :: results t after
  | (none, _) => []
termination_by m.cost t

end Matcher

namespace CheckedPattern

/-- Looks for matches of the pattern with the given nodes, in order and none left over. -/
def onSequence (p : CheckedPattern) (nodes : List ν) : Matcher ν :=
  .start p.elements (nodes.map fun n => ⟨.root, n⟩)

/-- Looks for matches of the pattern with one node. -/
def onNode (p : CheckedPattern) (n : ν) : Matcher ν :=
  p.onSequence [n]

/-- Looks for matches of the pattern with the children of a node, in their roles. -/
def onChildren (t : Target ν) (p : CheckedPattern) (n : ν) : Matcher ν :=
  .start p.elements (t.children n)

def preferred? (t : Target ν) (p : CheckedPattern) (n : ν) : Option (Match ν) :=
  ((p.onNode n).next t).1

def hasMatch (t : Target ν) (p : CheckedPattern) (n : ν) : Bool :=
  (p.preferred? t n).isSome

end CheckedPattern
end StructuralSearch
