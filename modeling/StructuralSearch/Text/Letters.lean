/-!
# Letters without case

Names and keywords are compared without regard to the case of `A` to `Z`; no other character has a
second form.
-/
namespace StructuralSearch.Text

def lowercase (s : String) : String :=
  s.map Char.toLower

/-- Equal up to the case of the letters `A` to `Z`. -/
def sameLetters (s t : String) : Bool :=
  lowercase s == lowercase t

end StructuralSearch.Text
