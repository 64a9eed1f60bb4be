import StructuralSearch.CommandLine.Packages
import StructuralSearch.StandIn.Json.Quoted
import StructuralSearch.StandIn.Json.Token

/-!
# Match records in JSON

A record is one JSON object on one line, in which the captures are an object of their own.
-/
namespace StructuralSearch.StandIn

open CommandLine (Written)

namespace Record

def toJson (r : MatchRecord) : String :=
  Json.object
    [("path", Json.quoted r.path),
      ("line", toString r.line),
      ("column", toString r.column),
      ("end_line", toString r.endLine),
      ("end_column", toString r.endColumn),
      ("text", Json.quoted r.text),
      ("captures", Json.object (r.captures.map fun c => (c.1, Json.quoted c.2)))]

/-- Reads captures up to the ends of their object and of the record. -/
def readCaptures? : List Json.Token → Option (List (String × String))
  | [.closeBrace, .closeBrace] => some []
  | [.text name, .colon, .text value, .closeBrace, .closeBrace] => some [(name, value)]
  | .text name :: .colon :: .text value :: .comma :: rest =>
    (readCaptures? rest).map ((name, value) :: ·)
  | _ => none

def ofTokens? : List Json.Token → Option MatchRecord
  | .openBrace :: .text "path" :: .colon :: .text path :: .comma ::
      .text "line" :: .colon :: .count line :: .comma ::
      .text "column" :: .colon :: .count column :: .comma ::
      .text "end_line" :: .colon :: .count endLine :: .comma ::
      .text "end_column" :: .colon :: .count endColumn :: .comma ::
      .text "text" :: .colon :: .text text :: .comma ::
      .text "captures" :: .colon :: .openBrace :: rest =>
    (readCaptures? rest).map fun captures =>
      { path, line, column, endLine, endColumn, text, captures }
  | _ => none

/-- Reads a record from the JSON text of one. -/
def ofJson? (json : String) : Option MatchRecord :=
  (Json.tokens? json.toList).bind ofTokens?

end Record

def writeRecord (r : MatchRecord) : Written :=
  { text := Record.toJson r }

end StructuralSearch.StandIn
