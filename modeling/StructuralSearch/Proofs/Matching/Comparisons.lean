import StructuralSearch.Proofs.Matching.Likeness
import StructuralSearch.Proofs.Tree.OfTree

/-!
# Coarser comparisons

Two views of the same trees may differ in what they take for the same text or the same content. With
the coarser view a matcher goes further in more places, and what it finds there comes in between;
but all matches that it finds with the finer one are still found, in the same order and with the
same nodes.
-/
namespace StructuralSearch

variable {ν ν' : Type}

/-- The children have the same role, and they are the same node in two views. -/
def Child.Agree (same : ν → ν' → Prop) (c : Child ν) (c' : Child ν') : Prop :=
  c'.role = c.role ∧ same c.node c'.node

/-- Two views of the same trees, in which `same` says which nodes are the same one. They agree on
kinds, on children and on roles; and what is alike in the first view is alike in the second. -/
structure Coarser (same : ν → ν' → Prop) (t : Target ν) (t' : Target ν') : Prop where
  kind : ∀ n n', same n n' → t'.kind n' = t.kind n
  children : ∀ n n', same n n' →
    List.Forall₂ (Child.Agree same) (t.children n) (t'.children n')
  hasText : ∀ n n', same n n' → ∀ text, t.hasText n text → t'.hasText n' text
  sameContent : ∀ m m' n n', same m m' → same n n' → t.sameContent m n → t'.sameContent m' n'

variable {same : ν → ν' → Prop}

namespace Coarser

variable {t : Target ν} {t' : Target ν'}

theorem sideBySide (h : Coarser same t t') : SideBySide (fun r r' => r' = r) same t t' where
  name _ _ hr := congrArg Role.name hr
  children := h.children

/-- What any pattern asks in the finer view passes on to the coarser one. -/
theorem passesOn (h : Coarser same t t') (p : Pattern) :
    p.PassesOn (fun r r' => r' = r) same t t' := by
  cases p with
  | any | capture | optional | repetition | choice => trivial
  | backreference name => exact h.sameContent
  | literal kind text slots =>
    rintro n n' hn ⟨hkind, htext⟩
    refine ⟨(h.kind n n' hn).trans hkind, ?_⟩
    cases text with
    | none => rfl
    | some text => exact h.hasText n n' hn text htext
  | adapter construct p =>
    rintro r _ rfl haccepts
    exact haccepts

theorem matchesOf (h : Coarser same t t') (elements : List Pattern) {siblings : List (Child ν)}
    {siblings' : List (Child ν')} (hsiblings : List.Forall₂ (Child.Agree same) siblings siblings') :
    List.SublistForall₂ (Match.Agree same) (matchesOf t elements siblings)
      (StructuralSearch.matchesOf t' elements siblings') :=
  h.sideBySide.matchesOf (fun o _ => h.passesOn o.pattern) hsiblings

end Coarser

/-- **Coarser comparisons only add matches.** With a coarser view of the same trees a pattern has
all the matches with siblings that it has with the finer one, in the same order and with the same
nodes bound to each name, and perhaps others among them. -/
theorem coarser_view_keeps_matches {t : Target ν} {t' : Target ν'} (h : Coarser same t t')
    (p : CheckedPattern) {siblings : List (Child ν)} {siblings' : List (Child ν')}
    (hsiblings : List.Forall₂ (Child.Agree same) siblings siblings') :
    ∃ kept, List.Forall₂ (Match.Agree same) ((Matcher.start p.elements siblings).results t) kept ∧
      kept.Sublist ((Matcher.start p.elements siblings').results t') := by
  rw [Matcher.results_start, Matcher.results_start]
  exact List.sublistForall₂_iff.1 (h.matchesOf p.elements hsiblings)

theorem sameLetters_self (s : String) : Text.sameLetters s s :=
  beq_self_eq_true _

/-- To ignore the case of letters is coarser than to compare exactly. -/
theorem coarser_ignoringCase (v : TreeView ν) : Coarser Eq v.exactly v.ignoringCase where
  kind := by
    rintro n _ rfl
    rfl
  children := by
    rintro n _ rfl
    exact List.forall₂_same.2 fun c _ => ⟨rfl, rfl⟩
  hasText := by
    rintro n _ rfl text htext
    have hown : v.text n = some text := beq_iff_eq.1 htext
    show (v.text n).any _
    rw [hown]
    exact sameLetters_self text
  sameContent := by
    rintro m _ n _ rfl rfl hsame
    obtain ⟨hkind, htext, -⟩ := TreeView.sameTree_iff.1 hsame
    show (v.kind m == v.kind n && _) = true
    rw [Bool.and_eq_true, beq_iff_eq, htext]
    refine ⟨hkind, ?_⟩
    split
    · rename_i s t hs ht
      cases hs.symm.trans ht
      exact sameLetters_self s
    · exact hsame

/-- One letter in both cases. -/
def bothCases : List (Child Tree.Node) :=
  [⟨.root, (Tree.single "letter" (some "a")).rootNode⟩,
    ⟨.root, (Tree.single "letter" (some "A")).rootNode⟩]

/-- A letter, perhaps the same one again, and perhaps any other. -/
def repeatedLetter : CheckedPattern where
  elements := [.any (some "first"), .capture "again" (.optional (.backreference "first")),
    .optional (.any none)]
  captures := ["first", "again"]
  checked := rfl

/-- Two siblings are matched once without the second one, and before that with it when it is the
same. -/
theorem matchesOf_repeatedLetter (t : Target ν) (a b : ν) :
    matchesOf t repeatedLetter.elements [⟨.root, a⟩, ⟨.root, b⟩] =
      (if t.sameContent a b then [⟨[("again", [b]), ("first", [a])]⟩] else []) ++
        [⟨[("again", []), ("first", [a])]⟩] := by
  have hroot : Role.root.isRoot = true := rfl
  have hofLog : ∀ again : Option ν, Match.ofLog ⟨[⟨"again", again⟩, ⟨"first", some a⟩]⟩ =
      ⟨[("again", again.toList), ("first", [a])]⟩ := by
    intro again
    have hnames : Log.names ⟨[⟨"again", again⟩, ⟨"first", some a⟩]⟩ = ["again", "first"] :=
      Log.names_eq (by decide) (by simp [Log.toList]) (by simp [Log.toList])
    rw [Match.ofLog, hnames]
    cases again <;> rfl
  cases h : t.sameContent a b <;>
    simp [matchesOf, repeatedLetter, inNoSlot, Pattern.outcomesInTurn, Pattern.outcomes,
      fittingAt?, Log.boundTo, Log.add, Log.addRun, Log.empty, Log.toList, between, Binding.ofRun,
      h, hroot, hofLog, Option.filter_some]

/-- Without regard to case the letter comes again, and this match is added before the other one. -/
theorem bothCases_keep_match :
    let nodes := bothCases.map (·.node)
    List.Forall₂ (Child.Agree Eq) bothCases bothCases ∧
      (Matcher.start repeatedLetter.elements bothCases).results Tree.Node.view.exactly =
        [⟨[("again", []), ("first", nodes.take 1)]⟩] ∧
      (Matcher.start repeatedLetter.elements bothCases).results Tree.Node.view.ignoringCase =
        [⟨[("again", nodes.drop 1), ("first", nodes.take 1)]⟩,
          ⟨[("again", []), ("first", nodes.take 1)]⟩] ∧
      ∃ kept,
        List.Forall₂ (Match.Agree Eq)
          ((Matcher.start repeatedLetter.elements bothCases).results Tree.Node.view.exactly) kept ∧
        kept.Sublist
          ((Matcher.start repeatedLetter.elements bothCases).results
            Tree.Node.view.ignoringCase) := by
  have hsiblings : List.Forall₂ (Child.Agree Eq) bothCases bothCases :=
    List.forall₂_same.2 fun c _ => ⟨rfl, rfl⟩
  refine ⟨hsiblings, ?_, ?_, ?_⟩
  · have hother : Tree.Node.view.exactly.sameContent (Tree.single "letter" (some "a")).rootNode
        (Tree.single "letter" (some "A")).rootNode = false := by decide +kernel
    rw [Matcher.results_start, bothCases, matchesOf_repeatedLetter, hother]
    rfl
  · have hsame : Tree.Node.view.ignoringCase.sameContent
        (Tree.single "letter" (some "a")).rootNode
        (Tree.single "letter" (some "A")).rootNode = true := by decide +kernel
    rw [Matcher.results_start, bothCases, matchesOf_repeatedLetter, hsame]
    rfl
  · exact coarser_view_keeps_matches (coarser_ignoringCase Tree.Node.view) repeatedLetter hsiblings

end StructuralSearch
