import StructuralSearch.Tree.Builder

/-!
# Built trees

A builder is filled by making leaves and nodes. What it finishes is a built tree. There a node that
has children has no text: leaves adopt nothing, and to be adopted changes a role and a parent only.
-/
namespace StructuralSearch

namespace Tree

/-- A builder as its own operations leave it. -/
inductive Builder.Filled : Builder → Prop
  | empty : Filled .empty
  | leaf {b : Builder} (kind text : String) (h : Filled b) : Filled (b.addLeaf kind text).2
  | node {b after : Builder} {kind : String} {slots : List (Role × NodeNumber)} {n : NodeNumber}
      (h : Filled b) (hadd : b.addNode kind slots = .ok (n, after)) : Filled after

/-- A tree that a builder has finished. -/
def Built (t : Tree) : Prop :=
  ∃ b root, Builder.Filled b ∧ b.finish root = .ok t

/-- What has a text has no children. -/
def TextOnLeaves (entries : Array Entry) : Prop :=
  ∀ (i : Nat) (e : Entry), entries[i]? = some e → e.text ≠ none → e.children = []

theorem textOnLeaves_push {entries : Array Entry} {e : Entry} (h : TextOnLeaves entries)
    (he : e.text ≠ none → e.children = []) : TextOnLeaves (entries.push e) := by
  intro i e' hi htext
  rw [Array.getElem?_push] at hi
  split at hi
  · cases hi
    exact he htext
  · exact h i e' hi htext

theorem textOnLeaves_modify {entries : Array Entry} {j : Nat} {f : Entry → Entry}
    (h : TextOnLeaves entries) (htext : ∀ e, (f e).text = e.text)
    (hchildren : ∀ e, (f e).children = e.children) : TextOnLeaves (entries.modify j f) := by
  intro i e hi he
  rw [Array.getElem?_modify] at hi
  split at hi
  · obtain ⟨e', he', rfl⟩ := Option.map_eq_some_iff.1 hi
    rw [htext] at he
    rw [hchildren]
    exact h i e' he' he
  · exact h i e hi he

namespace Builder

theorem textOnLeaves_adopt {parent : NodeNumber} {slots : List (Role × NodeNumber)}
    {entries : Array Entry} (h : TextOnLeaves entries) :
    TextOnLeaves (adopt parent slots entries) := by
  induction slots generalizing entries with
  | nil => exact h
  | cons slot rest ih => exact ih (textOnLeaves_modify h (fun _ => rfl) fun _ => rfl)

theorem entries_of_addNode {b after : Builder} {kind : String}
    {slots : List (Role × NodeNumber)} {n : NodeNumber}
    (h : b.addNode kind slots = .ok (n, after)) :
    after.entries = (adopt b.next slots b.entries).push
      { kind, text := none, children := slots.map (·.2) } := by
  unfold addNode at h
  split at h
  · cases h
  · cases h
    rfl

theorem entries_of_finish {b : Builder} {root : NodeNumber} {t : Tree}
    (h : b.finish root = .ok t) : t.entries = b.entries := by
  unfold finish at h
  split at h
  · cases h
  · split at h
    · cases h
    · cases h
      rfl

theorem Filled.textOnLeaves {b : Builder} (h : b.Filled) : TextOnLeaves b.entries := by
  induction h with
  | empty =>
    intro i e hi
    simp [Builder.empty] at hi
  | leaf kind text _ ih => exact textOnLeaves_push ih fun _ => rfl
  | node _ hadd ih =>
    rw [entries_of_addNode hadd]
    exact textOnLeaves_push (textOnLeaves_adopt ih) fun htext => absurd rfl htext

end Builder

theorem Built.textOnLeaves {t : Tree} (h : t.Built) : TextOnLeaves t.entries := by
  obtain ⟨b, root, hfilled, hfinish⟩ := h
  rw [Builder.entries_of_finish hfinish]
  exact hfilled.textOnLeaves

/-- In a built tree a node with children has no text. -/
theorem Node.text_eq_none {n : Node} (h : n.tree.Built) (hchildren : n.children ≠ []) :
    Node.view.text n = none := by
  by_cases htext : n.entry.text = none
  · exact htext
  · have hleaf : n.entry.children = [] :=
      h.textOnLeaves n.number.index n.entry n.entry_eq htext
    rw [Node.children, hleaf] at hchildren
    exact absurd rfl hchildren

end Tree
end StructuralSearch
