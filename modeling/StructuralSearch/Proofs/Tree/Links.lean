import Mathlib.Data.List.Nodup
import StructuralSearch.Proofs.Tree.Built

/-!
# How the nodes of a tree hang together

A builder stores each link twice: as a parent with the child and as a child with the parent. Both
say what the adoptions say that it has made. A node is adopted once at most, and by a node made
after it. In a finished tree one way leads down to each node, therefore, and the way up from there
ends at the root.
-/
namespace StructuralSearch

namespace Tree

/-- What a builder is asked to make. -/
inductive Call where
  | leaf (kind text : String)
  | node (kind : String) (slots : List (Role × NodeNumber))

/-- A node gets a parent, and its role there. -/
structure Adoption where
  parent : NodeNumber
  role : Role
  child : NodeNumber

def Adoption.ofSlot (parent : NodeNumber) (slot : Role × NodeNumber) : Adoption :=
  ⟨parent, slot.1, slot.2⟩

namespace Builder

/-- The answer to a call, and the builder after it. A call that fails leaves the builder as it
is. -/
def answer (b : Builder) : Call → Except Fault NodeNumber × Builder
  | .leaf kind text => (.ok (b.addLeaf kind text).1, (b.addLeaf kind text).2)
  | .node kind slots =>
    match b.addNode kind slots with
    | .ok (n, after) => (.ok n, after)
    | .error fault => (.error fault, b)

/-- The adoptions that come with a call, in the order of its slots. -/
def adoptions (b : Builder) : Call → List Adoption
  | .leaf _ _ => []
  | .node kind slots =>
    match b.addNode kind slots with
    | .ok (n, _) => slots.map (.ofSlot n)
    | .error _ => []

def after (b : Builder) : List Call → Builder
  | [] => b
  | call :: rest => (b.answer call).2.after rest

/-- All adoptions that come with the calls. -/
def made (b : Builder) : List Call → List Adoption
  | [] => []
  | call :: rest => b.adoptions call ++ (b.answer call).2.made rest

def parent? (b : Builder) (n : NodeNumber) : Option NodeNumber :=
  b.entries[n.index]?.bind (·.parent)

def childrenOf (b : Builder) (n : NodeNumber) : List NodeNumber :=
  (b.entries[n.index]?.map (·.children)).getD []

/-- The nodes are known, have no parent, and are listed once each. -/
structure AreFree (b : Builder) (ns : List NodeNumber) : Prop where
  free : ∀ n ∈ ns, ∃ e, b.entries[n.index]? = some e ∧ e.parent = none
  nodup : ns.Nodup

theorem checkFree_eq_ok_iff {b : Builder} {taken ns : List NodeNumber} :
    b.checkFree taken ns = .ok () ↔ b.AreFree ns ∧ ∀ n ∈ ns, n ∉ taken := by
  induction ns generalizing taken with
  | nil => exact iff_of_true rfl ⟨⟨nofun, .nil⟩, nofun⟩
  | cons n rest ih =>
    rw [checkFree]
    constructor
    · intro h
      split at h
      · cases h
      · rename_i e he
        split at h
        · cases h
        · rename_i hfree
          rw [Bool.or_eq_true, not_or, Bool.not_eq_true, Option.isSome_eq_false_iff,
            Option.isNone_iff_eq_none, List.contains_iff_mem] at hfree
          obtain ⟨hrest, htaken⟩ := ih.1 h
          refine ⟨⟨List.forall_mem_cons.2 ⟨⟨e, he, hfree.1⟩, hrest.free⟩,
            List.nodup_cons.2 ⟨?_, hrest.nodup⟩⟩, List.forall_mem_cons.2 ⟨hfree.2, ?_⟩⟩
          · exact fun hn => htaken n hn List.mem_cons_self
          · exact fun m hm hmem => htaken m hm (List.mem_cons_of_mem n hmem)
    · rintro ⟨⟨hfree, hnodup⟩, htaken⟩
      obtain ⟨⟨e, he, hparent⟩, hrest⟩ := List.forall_mem_cons.1 hfree
      obtain ⟨hn, hnodup⟩ := List.nodup_cons.1 hnodup
      obtain ⟨hnew, htaken⟩ := List.forall_mem_cons.1 htaken
      have hskip : ¬(e.parent.isSome || taken.contains n) := by
        rw [hparent, Option.isSome_none, Bool.false_or, List.contains_iff_mem]
        exact hnew
      simp only [he, if_neg hskip]
      refine ih.2 ⟨⟨hrest, hnodup⟩, fun m hm => ?_⟩
      rw [List.mem_cons, not_or]
      exact ⟨fun h => hn (h ▸ hm), htaken m hm⟩

/-- The entries after a node has been made that adopts the slots. -/
def entriesWith (b : Builder) (kind : String) (slots : List (Role × NodeNumber)) : Array Entry :=
  (adopt b.next slots b.entries).push { kind, text := none, children := slots.map (·.2) }

/-- A call for a node with children that are free makes it. -/
theorem answer_of_areFree {b : Builder} {slots : List (Role × NodeNumber)}
    (h : b.AreFree (slots.map (·.2))) (kind : String) :
    (b.answer (.node kind slots)).1 = .ok b.next ∧
      (b.answer (.node kind slots)).2.entries = b.entriesWith kind slots ∧
      b.adoptions (.node kind slots) = slots.map (.ofSlot b.next) := by
  have hok : ∃ after, b.addNode kind slots = .ok (b.next, after) := by
    have hfree := checkFree_eq_ok_iff.2 ⟨h, fun n _ => List.not_mem_nil⟩
    unfold addNode
    split
    · rename_i fault hfault
      cases hfault.symm.trans hfree
    · exact ⟨_, rfl⟩
  obtain ⟨after, hafter⟩ := hok
  rw [answer, adoptions, hafter]
  exact ⟨rfl, entries_of_addNode hafter, rfl⟩

/-- Any other call for a node fails, and changes nothing. -/
theorem answer_of_not_areFree {b : Builder} {slots : List (Role × NodeNumber)}
    (h : ¬b.AreFree (slots.map (·.2))) (kind : String) :
    (∃ fault, b.answer (.node kind slots) = (.error fault, b)) ∧
      b.adoptions (.node kind slots) = [] := by
  have herror : ∃ fault, b.addNode kind slots = .error fault := by
    unfold addNode
    split
    · exact ⟨_, rfl⟩
    · rename_i hfree
      exact absurd (checkFree_eq_ok_iff.1 hfree).1 h
  obtain ⟨fault, hfault⟩ := herror
  rw [answer, adoptions, hfault]
  exact ⟨⟨fault, rfl⟩, rfl⟩

end Builder

/-! ## What adoptions say -/

/-- The adoption of a node, if there is one. -/
def adoptionOf? (made : List Adoption) (n : NodeNumber) : Option Adoption :=
  made.find? fun a => a.child = n

theorem adoptionOf?_eq_none_iff {made : List Adoption} {n : NodeNumber} :
    adoptionOf? made n = none ↔ n ∉ made.map (·.child) := by
  simp [adoptionOf?, List.find?_eq_none]

theorem mem_of_adoptionOf?_eq_some {made : List Adoption} {n : NodeNumber} {a : Adoption}
    (h : adoptionOf? made n = some a) : a ∈ made ∧ a.child = n :=
  ⟨List.mem_of_find?_eq_some h, of_decide_eq_true (List.find?_some h :)⟩

/-- Of adoptions of different nodes each is the adoption of its own. -/
theorem adoptionOf?_child {made : List Adoption} (h : (made.map (·.child)).Nodup) {a : Adoption}
    (ha : a ∈ made) : adoptionOf? made a.child = some a := by
  cases hfound : adoptionOf? made a.child with
  | none => exact absurd (List.mem_map_of_mem ha) (adoptionOf?_eq_none_iff.1 hfound)
  | some other =>
    obtain ⟨hother, hchild⟩ := mem_of_adoptionOf?_eq_some hfound
    rw [List.inj_on_of_nodup_map h hother ha hchild]

theorem adoptionOf?_cons (a : Adoption) (made : List Adoption) (n : NodeNumber) :
    adoptionOf? (a :: made) n = if a.child = n then some a else adoptionOf? made n := by
  by_cases h : a.child = n <;> simp [adoptionOf?, h]

theorem adoptionOf?_append (made more : List Adoption) (n : NodeNumber) :
    adoptionOf? (made ++ more) n = (adoptionOf? made n).or (adoptionOf? more n) :=
  List.find?_append

/-- To be adopted changes the role and the parent of a node. -/
def Entry.adopted (e : Entry) : Option Adoption → Entry
  | some a => { e with role := a.role, parent := some a.parent }
  | none => e

@[simp] theorem Entry.children_adopted (e : Entry) (a? : Option Adoption) :
    (e.adopted a?).children = e.children := by
  cases a? <;> rfl

theorem Builder.getElem?_adopt {parent : NodeNumber} {slots : List (Role × NodeNumber)}
    (hnodup : (slots.map (·.2)).Nodup) (entries : Array Entry) (i : Nat) :
    (adopt parent slots entries)[i]? =
      entries[i]?.map fun e => e.adopted (adoptionOf? (slots.map (.ofSlot parent)) ⟨i⟩) := by
  induction slots generalizing entries with
  | nil => exact Option.map_id'.symm
  | cons slot rest ih =>
    obtain ⟨hslot, hnodup⟩ := List.nodup_cons.1 hnodup
    have hrest : adopt parent (slot :: rest) entries = adopt parent rest
        (entries.modify slot.2.index fun e => { e with role := slot.1, parent := some parent }) :=
      rfl
    rw [hrest, ih hnodup, Array.getElem?_modify, List.map_cons, adoptionOf?_cons]
    by_cases hi : (Adoption.ofSlot parent slot).child = ⟨i⟩
    · have hnone : adoptionOf? (rest.map (.ofSlot parent)) ⟨i⟩ = none := by
        rw [adoptionOf?_eq_none_iff, List.map_map, ← hi]
        exact hslot
      have hindex : slot.2.index = i := congrArg NodeNumber.index hi
      rw [if_pos hindex, if_pos hi, Option.map_map, hnone]
      rfl
    · have hindex : slot.2.index ≠ i := fun h => hi (congrArg NodeNumber.mk h)
      rw [if_neg hindex, if_neg hi]

/-- The links that the entries store are those of the adoptions. -/
structure Stores (entries : Array Entry) (made : List Adoption) : Prop where
  children : ∀ i e, entries[i]? = some e →
    e.children = (made.filter fun a => a.parent = ⟨i⟩).map (·.child)
  parent : ∀ i e, entries[i]? = some e → e.parent = (adoptionOf? made ⟨i⟩).map (·.parent)
  role : ∀ i e, entries[i]? = some e → e.role = ((adoptionOf? made ⟨i⟩).map (·.role)).getD .root
  once : (made.map (·.child)).Nodup
  inOrder : ∀ a ∈ made, a.child.index < a.parent.index ∧ a.parent.index < entries.size

namespace Stores

theorem empty : Stores #[] [] where
  children := by simp
  parent := by simp
  role := by simp
  once := .nil
  inOrder := nofun

variable {entries : Array Entry} {made : List Adoption}

theorem child_lt (h : Stores entries made) : ∀ a ∈ made, a.child.index < entries.size :=
  fun a ha => Nat.lt_trans (h.inOrder a ha).1 (h.inOrder a ha).2

/-- A new node, with links to it from the entries of its children. -/
structure Extends (entries : Array Entry) (new : List Adoption) (linked : Array Entry) : Prop where
  free : ∀ a ∈ new, ∃ e, entries[a.child.index]? = some e ∧ e.parent = none
  nodup : (new.map (·.child)).Nodup
  parent : ∀ a ∈ new, a.parent = ⟨entries.size⟩
  size : linked.size = entries.size
  get : ∀ i : Nat, linked[i]? = entries[i]?.map fun e => e.adopted (adoptionOf? new ⟨i⟩)

namespace Extends

variable {new : List Adoption} {linked : Array Entry}

theorem child_lt (h : Extends entries new linked) : ∀ a ∈ new, a.child.index < entries.size := by
  intro a ha
  obtain ⟨e, he, -⟩ := h.free a ha
  exact (Array.getElem?_eq_some_iff.1 he).1

/-- What is stored then is the new entry, or an old one with the link that it may have got. -/
theorem cases (h : Extends entries new linked) {top : Entry} {i : Nat} {e : Entry}
    (hi : (linked.push top)[i]? = some e) :
    i = entries.size ∧ e = top ∨
      i < entries.size ∧
        ∃ old, entries[i]? = some old ∧ e = old.adopted (adoptionOf? new ⟨i⟩) := by
  rw [Array.getElem?_push, h.size] at hi
  split at hi
  · exact .inl ⟨‹_›, (Option.some.inj hi).symm⟩
  · rw [h.get] at hi
    obtain ⟨old, hold, he⟩ := Option.map_eq_some_iff.1 hi
    exact .inr ⟨(Array.getElem?_eq_some_iff.1 hold).1, old, hold, he.symm⟩

theorem not_adopted_before (h : Extends entries new linked) (hstores : Stores entries made) :
    ∀ a ∈ new, adoptionOf? made a.child = none := by
  intro a ha
  obtain ⟨e, he, hnone⟩ := h.free a ha
  exact Option.map_eq_none_iff.1 ((hstores.parent _ e he).symm.trans hnone)

theorem link (h : Extends entries new linked) (hstores : Stores entries made) {top : Entry}
    (hparent : top.parent = none) (hrole : top.role = .root) {i : Nat} {e : Entry}
    (hi : (linked.push top)[i]? = some e) :
    e.parent = (adoptionOf? (made ++ new) ⟨i⟩).map (·.parent) ∧
      e.role = ((adoptionOf? (made ++ new) ⟨i⟩).map (·.role)).getD .root := by
  rcases h.cases hi with ⟨rfl, rfl⟩ | ⟨-, old, hold, rfl⟩
  · have hnone : adoptionOf? (made ++ new) ⟨entries.size⟩ = none := by
      rw [adoptionOf?_eq_none_iff, List.mem_map]
      rintro ⟨a, ha, he⟩
      have hlt : a.child.index < entries.size :=
        (List.mem_append.1 ha).elim (hstores.child_lt a) (h.child_lt a)
      rw [he] at hlt
      exact Nat.lt_irrefl _ hlt
    rw [hnone]
    exact ⟨hparent, hrole⟩
  · rw [adoptionOf?_append]
    cases hnew : adoptionOf? new ⟨i⟩ with
    | none =>
      rw [Option.or_none]
      exact ⟨hstores.parent i old hold, hstores.role i old hold⟩
    | some a =>
      obtain ⟨ha, hchild⟩ := mem_of_adoptionOf?_eq_some hnew
      rw [← hchild, h.not_adopted_before hstores a ha]
      exact ⟨rfl, rfl⟩

theorem children (h : Extends entries new linked) (hstores : Stores entries made) {top : Entry}
    (htop : top.children = new.map (·.child)) {i : Nat} {e : Entry}
    (hi : (linked.push top)[i]? = some e) :
    e.children = ((made ++ new).filter fun a => a.parent = ⟨i⟩).map (·.child) := by
  rw [List.filter_append]
  rcases h.cases hi with ⟨rfl, rfl⟩ | ⟨hlt, old, hold, rfl⟩
  · have hmade : (made.filter fun a => a.parent = ⟨entries.size⟩) = [] := by
      rw [List.filter_eq_nil_iff]
      intro a ha he
      have hlt := (hstores.inOrder a ha).2
      rw [of_decide_eq_true he] at hlt
      exact Nat.lt_irrefl _ hlt
    have hnew : (new.filter fun a => a.parent = ⟨entries.size⟩) = new :=
      List.filter_eq_self.2 fun a ha => decide_eq_true (h.parent a ha)
    rw [hmade, hnew, htop]
    rfl
  · have hnew : (new.filter fun a => a.parent = ⟨i⟩) = [] := by
      rw [List.filter_eq_nil_iff]
      intro a ha he
      have heq := (h.parent a ha).symm.trans (of_decide_eq_true he)
      exact Nat.ne_of_gt hlt (congrArg NodeNumber.index heq)
    rw [hnew, List.append_nil, Entry.children_adopted]
    exact hstores.children i old hold

end Extends

theorem push (h : Stores entries made) {new : List Adoption} {linked : Array Entry}
    (hextends : Extends entries new linked) (kind : String) (text : Option String) :
    Stores (linked.push { kind, text, children := new.map (·.child) }) (made ++ new) where
  children _ _ hi := hextends.children h rfl hi
  parent _ _ hi := (hextends.link h rfl rfl hi).1
  role _ _ hi := (hextends.link h rfl rfl hi).2
  once := by
    rw [List.map_append, List.nodup_append]
    refine ⟨h.once, hextends.nodup, ?_⟩
    rintro _ hmade n hnew rfl
    obtain ⟨a, ha, rfl⟩ := List.mem_map.1 hnew
    exact adoptionOf?_eq_none_iff.1 (hextends.not_adopted_before h a ha) hmade
  inOrder := by
    intro a ha
    rw [Array.size_push, hextends.size]
    rcases List.mem_append.1 ha with ha | ha
    · obtain ⟨hlt, hsize⟩ := h.inOrder a ha
      exact ⟨hlt, Nat.lt_succ_of_lt hsize⟩
    · rw [hextends.parent a ha]
      exact ⟨hextends.child_lt a ha, Nat.lt_succ_self _⟩

/-- A call stores the adoptions that come with it. -/
theorem answer {b : Builder} (h : Stores b.entries made) (call : Call) :
    Stores (b.answer call).2.entries (made ++ b.adoptions call) := by
  cases call with
  | leaf kind text =>
    have hextends : Extends b.entries [] b.entries :=
      ⟨nofun, .nil, nofun, rfl, fun _ => Option.map_id'.symm⟩
    exact h.push hextends kind (some text)
  | node kind slots =>
    by_cases hfree : b.AreFree (slots.map (·.2))
    · obtain ⟨-, hentries, hadoptions⟩ := Builder.answer_of_areFree hfree kind
      have hchildren : (slots.map (Adoption.ofSlot b.next)).map (·.child) = slots.map (·.2) :=
        List.map_map
      have hextends : Extends b.entries (slots.map (.ofSlot b.next))
          (Builder.adopt b.next slots b.entries) := by
        refine ⟨?_, ?_, ?_, Builder.size_adopt _ _ _, Builder.getElem?_adopt hfree.nodup _⟩
        · intro a ha
          obtain ⟨slot, hslot, rfl⟩ := List.mem_map.1 ha
          exact hfree.free slot.2 (List.mem_map_of_mem hslot)
        · rw [hchildren]
          exact hfree.nodup
        · intro a ha
          obtain ⟨slot, -, rfl⟩ := List.mem_map.1 ha
          rfl
      have hpush := h.push hextends kind none
      rw [hchildren] at hpush
      rw [hentries, hadoptions]
      exact hpush
    · obtain ⟨⟨fault, hfault⟩, hadoptions⟩ := Builder.answer_of_not_areFree hfree kind
      rw [hfault, hadoptions, List.append_nil]
      exact h

theorem after {b : Builder} (h : Stores b.entries made) (calls : List Call) :
    Stores (b.after calls).entries (made ++ b.made calls) := by
  induction calls generalizing b made with
  | nil => rwa [Builder.made, List.append_nil]
  | cons call rest ih =>
    rw [Builder.made, ← List.append_assoc]
    exact ih (h.answer call)

/-! ## Parents and children -/

theorem parent?_eq_some_iff {b : Builder} (h : Stores b.entries made) {c p : NodeNumber} :
    b.parent? c = some p ↔ ∃ a ∈ made, a.child = c ∧ a.parent = p := by
  constructor
  · intro hp
    obtain ⟨e, he, hp⟩ := Option.bind_eq_some_iff.1 hp
    rw [h.parent c.index e he] at hp
    obtain ⟨a, ha, hparent⟩ := Option.map_eq_some_iff.1 hp
    obtain ⟨hmem, hchild⟩ := mem_of_adoptionOf?_eq_some ha
    exact ⟨a, hmem, hchild, hparent⟩
  · rintro ⟨a, ha, rfl, rfl⟩
    have he := Array.getElem?_eq_getElem (h.child_lt a ha)
    rw [Builder.parent?, he, Option.bind_some, h.parent _ _ he]
    exact congrArg (Option.map _) (adoptionOf?_child h.once ha)

theorem childrenOf_eq {b : Builder} (h : Stores b.entries made) (p : NodeNumber) :
    b.childrenOf p = (made.filter fun a => a.parent = p).map (·.child) := by
  rw [Builder.childrenOf]
  cases he : b.entries[p.index]? with
  | some e => exact h.children p.index e he
  | none =>
    have hnone : (made.filter fun a => a.parent = p) = [] := by
      rw [List.filter_eq_nil_iff]
      intro a ha hparent
      have hlt := (h.inOrder a ha).2
      rw [of_decide_eq_true hparent] at hlt
      exact absurd hlt (Nat.not_lt.2 (Array.getElem?_eq_none_iff.1 he))
    rw [hnone]
    rfl

theorem mem_childrenOf_iff {b : Builder} (h : Stores b.entries made) {c p : NodeNumber} :
    c ∈ b.childrenOf p ↔ ∃ a ∈ made, a.child = c ∧ a.parent = p := by
  rw [h.childrenOf_eq, List.mem_map]
  constructor
  · rintro ⟨a, ha, hchild⟩
    obtain ⟨ha, hparent⟩ := List.mem_filter.1 ha
    exact ⟨a, ha, hchild, of_decide_eq_true hparent⟩
  · rintro ⟨a, ha, hchild, hparent⟩
    exact ⟨a, List.mem_filter.2 ⟨ha, decide_eq_true hparent⟩, hchild⟩

theorem nodup_childrenOf {b : Builder} (h : Stores b.entries made) (p : NodeNumber) :
    (b.childrenOf p).Nodup := by
  rw [h.childrenOf_eq]
  exact h.once.sublist (List.filter_sublist.map _)

end Stores
end Tree
end StructuralSearch
