import StructuralSearch.SearchFault
import StructuralSearch.Source.Walk

/-!
# Parsing a source

A parser's tree with the text that it came from, and a report on what the parser could not make
sense of.
-/
namespace StructuralSearch

def Parser.parse (parser : Parser) (language : Language) (text : String) :
    Except SearchFault ParsedSource :=
  match parser language text with
  | some parse => .ok { language, text, tree := parse.tree, hasError := parse.hasError }
  | none => .error (.noTree language)

/-- A place where the text is not as the grammar wants it. -/
structure ParseFault where
  range : Text.ByteRange
  position : Text.Position
  /-- The text in question, shortened. -/
  context : String
  message : String

namespace ParseFault

/-- The most bytes that are shown in full. -/
def shownInFull : Nat := 50

/-- The characters kept of a longer text. -/
def keptOfLonger : Nat := 47

/-- A text as it is shown: a long one loses its end. -/
def shorten (text : String) : String :=
  if text.utf8ByteSize > shownInFull then
    String.ofList (text.toList.take keptOfLonger) ++ "..."
  else text

def ofNode (n : SourceNode) : ParseFault where
  range := n.range
  position := n.startPosition
  context := ((Text.slice? n.source n.range).map shorten).getD ""
  message := if n.label.missing then "missing " ++ n.kind else "syntax error"

end ParseFault

/-- A report for each node that is in error or missing, in the order of the text. -/
def ParsedSource.faults (s : ParsedSource) : List ParseFault :=
  (s.nodes.filter fun n => n.label.isError || n.label.missing).map .ofNode

end StructuralSearch
