import StructuralSearch.Search.Limits
import StructuralSearch.StandIn.Json.Quoted
import StructuralSearch.StandIn.Json.Token

/-!
# Search limits in JSON

In JSON the limits are an object, or an array in the order of the fields; what is left out has its
usual value.
-/
namespace StructuralSearch

open StandIn

namespace SearchLimits

def toJson (limits : SearchLimits) : String :=
  Json.object
    [("max_matches", toString limits.maxMatches), ("max_file_bytes", toString limits.maxFileBytes)]

/-- The fields read so far. -/
structure Fields where
  maxMatches : Option Nat := none
  maxFileBytes : Option Nat := none

/-- Adds a field that is known and not there yet. -/
def Fields.add? (fields : Fields) (key : String) (n : Nat) : Option Fields :=
  if key = "max_matches" && fields.maxMatches.isNone then
    some { fields with maxMatches := some n }
  else if key = "max_file_bytes" && fields.maxFileBytes.isNone then
    some { fields with maxFileBytes := some n }
  else none

def ofFields (fields : Fields) : SearchLimits :=
  let usual : SearchLimits := {}
  { maxMatches := fields.maxMatches.getD usual.maxMatches
    maxFileBytes := fields.maxFileBytes.getD usual.maxFileBytes }

/-- Reads the fields of an object from the first key on, up to its end. -/
def readObject? (fields : Fields) : List Json.Token → Option SearchLimits
  | [.text key, .colon, .count n, .closeBrace] => (fields.add? key n).map ofFields
  | .text key :: .colon :: .count n :: .comma :: rest =>
    match fields.add? key n with
    | some fields => readObject? fields rest
    | none => none
  | _ => none

def ofTokens? : List Json.Token → Option SearchLimits
  | [.openBrace, .closeBrace] => some {}
  | [.openBracket, .closeBracket] => some {}
  | [.openBracket, .count a, .closeBracket] => some { maxMatches := a }
  | [.openBracket, .count a, .comma, .count b, .closeBracket] =>
    some { maxMatches := a, maxFileBytes := b }
  | .openBrace :: rest => readObject? {} rest
  | _ => none

/-- Reads limits from JSON: known fields only, each at most once, and counts as values. -/
def ofJson? (json : String) : Option SearchLimits :=
  (Json.tokens? json.toList).bind ofTokens?

end SearchLimits
end StructuralSearch
