import StructuralSearch.Language
import StructuralSearch.Text.Blank
import StructuralSearch.Text.Lines

/-!
# Fragments

Code that is no file by itself, such as a single expression, is parsed as the body of a function.
-/
namespace StructuralSearch.Template

/-- The name of the function around a fragment. -/
def wrapperName : String := "__heddle_template__"

/-- A statement that lacks its semicolon gets one. -/
def terminator (code : String) : String :=
  match code.toList.getLast? with
  | none => ""
  | some c => if c = ';' || c = '\x7d' then "" else ";"

/-- A function with the fragment as its body. -/
def wrap (language : Language) (fragment : String) : String :=
  match language with
  | .rust =>
    let code := Text.trimEnd fragment
    "fn " ++ wrapperName ++ "() \x7b " ++ code ++ terminator code ++ " \x7d"
  | .python =>
    let body :=
      if Text.isAllBlank fragment then "    pass\n"
      else String.join ((Text.lines fragment).map fun line => "    " ++ line ++ "\n")
    "def " ++ wrapperName ++ "():\n" ++ body
  | .typescript => "function " ++ wrapperName ++ "() \x7b " ++ fragment ++ " \x7d"

end StructuralSearch.Template
