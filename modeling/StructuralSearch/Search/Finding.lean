import StructuralSearch.Matching.Results
import StructuralSearch.Template.Basic

/-!
# Searching

A template is looked for at every named node of a parse tree, parents before children. At each node
only the preferred match counts.
-/
namespace StructuralSearch

/-- What a metavariable stands for in a match. -/
inductive Captured where
  | single (node : SourceNode)
  /-- A run of nodes, with the range from the first to the last and the text in it. -/
  | run (nodes : List SourceNode) (range : Text.ByteRange) (text : String)

namespace Captured

def ofRun (source : String) (nodes : List SourceNode) : Captured :=
  let range : Text.ByteRange :=
    match nodes.head?, nodes.getLast? with
    | some first, some last => ⟨first.range.start, last.range.stop⟩
    | _, _ => ⟨0, 0⟩
  .run nodes range ((Text.slice? source range).getD "")

def text : Captured → String
  | single node => node.coveredText
  | run _ _ text => text

def range : Captured → Text.ByteRange
  | single node => node.range
  | run _ range _ => range

def nodes : Captured → List SourceNode
  | single node => [node]
  | run nodes _ _ => nodes

end Captured

/-- A node where a template matches, with what its metavariables stand for, sorted by name. -/
structure Finding where
  node : SourceNode
  captures : List (String × Captured)

namespace Finding

def range (m : Finding) : Text.ByteRange :=
  m.node.range

def text (m : Finding) : String :=
  m.node.coveredText

def capture? (m : Finding) (name : String) : Option Captured :=
  m.captures.lookup name

end Finding

namespace Template

/-- What a name of the template stands for, given the nodes bound to it. -/
def captured? (t : Template) (source name : String) (nodes : List SourceNode) :
    Option Captured :=
  match t.kindOf? name with
  | some .single => nodes.head?.map .single
  | some .multiple => some (.ofRun source nodes)
  | none => none

def report (t : Template) (n : SourceNode) (found : Match SourceNode) : Finding where
  node := n
  captures := found.captures.filterMap fun c =>
    (t.captured? n.source c.1 c.2).map fun value => (c.1, value)

/-- The preferred match at a node. -/
def findingAt? (t : Template) (n : SourceNode) : Option Finding :=
  (t.pattern.preferred? SourceNode.target n).map (t.report n)

/-- The nodes of a source at which the template can match: none in another language. -/
def candidates (t : Template) (s : ParsedSource) : List SourceNode :=
  if s.language = t.language then s.nodes.filter fun n => n.label.named && !n.label.extra else []

/-- The first matches at the nodes, up to `limit` of them. No node is looked at after the last one
that counts. -/
def findingsAmong (t : Template) : Nat → List SourceNode → List Finding
  | 0, _ => []
  | _, [] => []
  | limit + 1, n :: rest =>
    match t.findingAt? n with
    | some found => found :: t.findingsAmong limit rest
    | none => t.findingsAmong (limit + 1) rest

theorem findingsAmong_eq_take (t : Template) (limit : Nat) (nodes : List SourceNode) :
    t.findingsAmong limit nodes = (nodes.filterMap t.findingAt?).take limit := by
  fun_induction findingsAmong t limit nodes with
  | case1 => simp
  | case2 => simp
  | case3 limit n rest found h ih => simp [h, ih]
  | case4 limit n rest h ih => simp [h, ih]

/-- The first matches in a source, up to `limit` of them. -/
def findings (t : Template) (s : ParsedSource) (limit : Nat) : List Finding :=
  t.findingsAmong limit (t.candidates s)

theorem exists_findingAt?_of_mem_findings {t : Template} {s : ParsedSource} {limit : Nat}
    {found : Finding} (h : found ∈ t.findings s limit) :
    ∃ n ∈ t.candidates s, t.findingAt? n = some found := by
  rw [findings, findingsAmong_eq_take] at h
  exact List.mem_filterMap.1 (List.mem_of_mem_take h)

def firstFinding? (t : Template) (s : ParsedSource) : Option Finding :=
  (t.candidates s).findSome? t.findingAt?

end Template
end StructuralSearch
