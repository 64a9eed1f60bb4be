import StructuralSearch.Text.GraphemeExtend
import StructuralSearch.Text.Unprintable

/-!
# Quoted text

A text between double quotes, in which a character that a reader could not see or could mistake is
written as an escape.
-/
namespace StructuralSearch.Text

/-- The digits of `n` in base sixteen, in lower case and without leading zeros. -/
def hexadecimal (n : Nat) : String :=
  String.ofList (Nat.toDigits 16 n)

/-- The fillers of Hangul, which are letters but show nothing. -/
def isFiller (c : Char) : Bool :=
  c == '\u115f' || c == '\u1160' || c == '\u3164' || c == '\uffa0'

/-- The sound marks of halfwidth katakana, which take a place of their own. -/
def isSoundMark (c : Char) : Bool :=
  c == '\uff9e' || c == '\uff9f'

/-- The character cannot be seen, or only as a part of the one before it. -/
def isHidden (c : Char) : Bool :=
  isUnprintable c || isFiller c || (isGraphemeExtend c && !isSoundMark c)

/-- A backslash form where there is a short one, the code point between braces for a hidden
character, and the character itself otherwise. -/
def quotedChar (c : Char) : String :=
  if c = '\x00' then "\\0"
  else if c = '\t' then "\\t"
  else if c = '\r' then "\\r"
  else if c = '\n' then "\\n"
  else if c = '\\' then "\\\\"
  else if c = '"' then "\\\""
  else if isHidden c then "\\u\x7b" ++ hexadecimal c.toNat ++ "\x7d"
  else c.toString

def quoted (s : String) : String :=
  "\"" ++ String.join (s.toList.map quotedChar) ++ "\""

end StructuralSearch.Text
