/-!
# Segments

A template or a replacement falls into characters and references. A reference is a run of dollar
signs, as long as possible, with the longest name that follows it; the name may be missing.
-/
namespace StructuralSearch.Template

def isNameStart (c : Char) : Bool :=
  c.isUpper || c == '_'

def isNameRest (c : Char) : Bool :=
  c.isUpper || c.isDigit || c == '_'

/-- The longest name at the beginning of the text; empty when none begins there. -/
def nameAt : List Char → List Char
  | [] => []
  | c :: rest => if isNameStart c then c :: rest.takeWhile isNameRest else []

inductive Segment where
  /-- A character other than a dollar sign. -/
  | char (c : Char)
  | reference (dollars : Nat) (name : String)
  deriving DecidableEq, Repr

namespace Segment

/-- The characters that the segment stands for. -/
def text : Segment → List Char
  | char c => [c]
  | reference dollars name => List.replicate dollars '$' ++ name.toList

/-- The segments of a text, in order. -/
def ofText : List Char → List Segment
  | [] => []
  | c :: rest =>
    if c = '$' then
      let dollars := rest.takeWhile (· = '$')
      let after := rest.drop dollars.length
      let name := nameAt after
      reference (1 + dollars.length) (String.ofList name) :: ofText (after.drop name.length)
    else char c :: ofText rest
termination_by cs => cs.length
decreasing_by
  · simp only [List.length_drop, List.length_cons]; omega
  · simp

theorem nameAt_append_drop (cs : List Char) : nameAt cs ++ cs.drop (nameAt cs).length = cs := by
  match cs with
  | [] => rfl
  | c :: rest =>
    by_cases h : isNameStart c
    · have := List.prefix_iff_eq_append.1 (List.takeWhile_prefix isNameRest (l := rest))
      simpa [nameAt, h] using this
    · simp [nameAt, h]

/-- The segments hold every character of the text, in order. -/
theorem flatMap_text_ofText (cs : List Char) : (ofText cs).flatMap text = cs := by
  fun_induction ofText cs with
  | case1 => rfl
  | case2 rest dollars after name ih =>
    have run : List.replicate dollars.length '$' = dollars :=
      (List.eq_replicate_iff.2 ⟨rfl, fun d hd => by
        simpa using List.all_eq_true.1 List.all_takeWhile d hd⟩).symm
    have split := List.prefix_iff_eq_append.1 (List.takeWhile_prefix (· = '$') (l := rest))
    simp only [List.flatMap_cons, text, ih, String.toList_ofList, Nat.add_comm 1,
      List.replicate_succ, run, List.cons_append, List.append_assoc]
    rw [nameAt_append_drop, split]
  | case3 c rest h ih => simp [text, ih]

end Segment
end StructuralSearch.Template
