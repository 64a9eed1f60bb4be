import StructuralSearch.Text.Quoted

/-!
# Texts in JSON
-/
namespace StructuralSearch.StandIn.Json

/-- Four digits in base sixteen, for a code point that fits. -/
def fourDigits (n : Nat) : String :=
  let digits := Text.hexadecimal n
  String.ofList (List.replicate (4 - digits.length) '0') ++ digits

/-- Quotes, backslashes and control characters are escaped, the shortest way there is. -/
def quotedChar (c : Char) : String :=
  if c = '"' then "\\\""
  else if c = '\\' then "\\\\"
  else if c = '\x08' then "\\b"
  else if c = '\x0c' then "\\f"
  else if c = '\n' then "\\n"
  else if c = '\r' then "\\r"
  else if c = '\t' then "\\t"
  else if c.toNat < 0x20 then "\\u" ++ fourDigits c.toNat
  else c.toString

def quoted (s : String) : String :=
  "\"" ++ String.join (s.toList.map quotedChar) ++ "\""

/-- An object, from its keys and the JSON text of its values. -/
def object (fields : List (String × String)) : String :=
  "\x7b" ++ ",".intercalate (fields.map fun f => quoted f.1 ++ ":" ++ f.2) ++ "\x7d"

end StructuralSearch.StandIn.Json
