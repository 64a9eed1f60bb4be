import StructuralSearch.Text.Quoted
import StructuralSearch.Tree.View

/-!
# Trees built bottom-up

A builder holds nodes in the order in which they were made and names each by its number. A new node
adopts nodes made before it, so a child's number is always below its parent's: following children
ends, and no node is its own descendant.
-/
namespace StructuralSearch

namespace Tree

/-- The number of a node, in order of making. -/
structure NodeNumber where
  index : Nat
  deriving DecidableEq, Repr

def NodeNumber.toText (n : NodeNumber) : String :=
  "#" ++ toString n.index

inductive Fault where
  | unknown (n : NodeNumber)
  | taken (n : NodeNumber)
  | notFree (n : NodeNumber)
  deriving DecidableEq, Repr

def Fault.message : Fault → String
  | unknown n => "node " ++ n.toText ++ " does not belong to this builder"
  | taken n => "node " ++ n.toText ++ " is already attached to a parent"
  | notFree n => "node " ++ n.toText ++ " has a parent and cannot be the root"

/-- What is stored for a node. Leaves have text, and a node without a parent has the root's role. -/
structure Entry where
  kind : String
  text : Option String
  role : Role := .root
  parent : Option NodeNumber := none
  children : List NodeNumber := []

/-- Every node comes after its children. -/
def ChildrenFirst (entries : Array Entry) : Prop :=
  ∀ (i : Nat) (e : Entry), entries[i]? = some e → ∀ c ∈ e.children, c.index < i

theorem childrenFirst_empty : ChildrenFirst #[] := by
  simp [ChildrenFirst]

theorem childrenFirst_push {entries : Array Entry} {e : Entry} (h : ChildrenFirst entries)
    (he : ∀ c ∈ e.children, c.index < entries.size) : ChildrenFirst (entries.push e) := by
  intro i e' hi c hc
  rw [Array.getElem?_push] at hi
  split at hi
  · cases hi
    subst i
    exact he c hc
  · exact h i e' hi c hc

theorem childrenFirst_modify {entries : Array Entry} {j : Nat} {f : Entry → Entry}
    (h : ChildrenFirst entries) (hf : ∀ e, (f e).children = e.children) :
    ChildrenFirst (entries.modify j f) := by
  intro i e hi c hc
  rw [Array.getElem?_modify] at hi
  split at hi
  · obtain ⟨e', he', rfl⟩ := Option.map_eq_some_iff.1 hi
    exact h i e' he' c (hf e' ▸ hc)
  · exact h i e hi c hc

end Tree

/-- A finished tree. It keeps every node that was made; those that its root does not reach can still
be looked up by number. -/
structure Tree where
  entries : Array Tree.Entry
  root : Tree.NodeNumber
  childrenFirst : Tree.ChildrenFirst entries
  root_lt : root.index < entries.size

namespace Tree

structure Builder where
  entries : Array Entry
  childrenFirst : ChildrenFirst entries

namespace Builder

def empty : Builder :=
  ⟨#[], childrenFirst_empty⟩

/-- The number of the node to be made next. -/
def next (b : Builder) : NodeNumber :=
  ⟨b.entries.size⟩

def addLeaf (b : Builder) (kind text : String) : NodeNumber × Builder :=
  (b.next,
    { entries := b.entries.push { kind, text := some text }
      childrenFirst := childrenFirst_push b.childrenFirst (by simp) })

/-- Each of the nodes is known and free to be adopted, and none is listed twice; `taken` holds those
listed before. -/
def checkFree (b : Builder) (taken : List NodeNumber) : List NodeNumber → Except Fault Unit
  | [] => .ok ()
  | n :: rest =>
    match b.entries[n.index]? with
    | none => .error (.unknown n)
    | some e =>
      if e.parent.isSome || taken.contains n then .error (.taken n)
      else b.checkFree (n :: taken) rest

/-- Gives the nodes a parent and their roles below it. -/
def adopt (parent : NodeNumber) (slots : List (Role × NodeNumber)) (entries : Array Entry) :
    Array Entry :=
  slots.foldl
    (fun es slot =>
      es.modify slot.2.index fun e => { e with role := slot.1, parent := some parent })
    entries

theorem childrenFirst_adopt {parent : NodeNumber} {slots : List (Role × NodeNumber)}
    {entries : Array Entry} (h : ChildrenFirst entries) :
    ChildrenFirst (adopt parent slots entries) := by
  induction slots generalizing entries with
  | nil => exact h
  | cons slot rest ih => exact ih (childrenFirst_modify h fun _ => rfl)

@[simp] theorem size_adopt (parent : NodeNumber) (slots : List (Role × NodeNumber))
    (entries : Array Entry) : (adopt parent slots entries).size = entries.size := by
  induction slots generalizing entries with
  | nil => rfl
  | cons slot rest ih => exact (ih _).trans (by simp)

theorem lt_size_of_checkFree {b : Builder} {taken ns : List NodeNumber}
    (h : b.checkFree taken ns = .ok ()) : ∀ c ∈ ns, c.index < b.entries.size := by
  induction ns generalizing taken with
  | nil => simp
  | cons n rest ih =>
    unfold checkFree at h
    split at h
    · cases h
    · rename_i e he
      split at h
      · cases h
      · have hlt := (Array.getElem?_eq_some_iff.1 he).1
        simpa [hlt] using ih h

/-- Makes a node that adopts the given ones in order. -/
def addNode (b : Builder) (kind : String) (slots : List (Role × NodeNumber)) :
    Except Fault (NodeNumber × Builder) :=
  match h : b.checkFree [] (slots.map (·.2)) with
  | .error e => .error e
  | .ok () => .ok (b.next,
      { entries := (adopt b.next slots b.entries).push
          { kind, text := none, children := slots.map (·.2) }
        childrenFirst := childrenFirst_push (childrenFirst_adopt b.childrenFirst)
          (by simpa using lt_size_of_checkFree h) })

/-- The tree with the given root, which must be known and without a parent. -/
def finish (b : Builder) (root : NodeNumber) : Except Fault Tree :=
  match h : b.entries[root.index]? with
  | none => .error (.unknown root)
  | some e =>
    if e.parent.isSome then .error (.notFree root)
    else .ok
      { entries := b.entries, root, childrenFirst := b.childrenFirst
        root_lt := (Array.getElem?_eq_some_iff.1 h).1 }

end Builder

/-- A node of a tree, with what the tree stores for it. -/
structure Node where
  tree : Tree
  number : NodeNumber
  entry : Entry
  entry_eq : tree.entries[number.index]? = some entry

/-- The number of nodes. -/
def size (t : Tree) : Nat :=
  t.entries.size

def get? (t : Tree) (n : NodeNumber) : Option Node :=
  match h : t.entries[n.index]? with
  | some entry => some ⟨t, n, entry, h⟩
  | none => none

def rootNode (t : Tree) : Node :=
  have := t.root_lt
  ⟨t, t.root, t.entries[t.root.index], by simp⟩

theorem eq_of_get? {t : Tree} {n : NodeNumber} {m : Node} (h : t.get? n = some m) :
    m.number = n ∧ m.tree = t := by
  unfold get? at h
  split at h
  · cases h
    exact ⟨rfl, rfl⟩
  · cases h

namespace Node

def role (n : Node) : Role :=
  n.entry.role

def parent (n : Node) : Option Node :=
  n.entry.parent.bind n.tree.get?

def children (n : Node) : List (Child Node) :=
  n.entry.children.filterMap fun c => (n.tree.get? c).map fun m => ⟨m.role, m⟩

theorem index_lt_of_mem_children {n : Node} {c : Child Node} (h : c ∈ n.children) :
    c.node.number.index < n.number.index := by
  obtain ⟨i, hi, hc⟩ := List.mem_filterMap.1 h
  obtain ⟨m, hm, rfl⟩ := Option.map_eq_some_iff.1 hc
  rw [(eq_of_get? hm).1]
  exact n.tree.childrenFirst _ _ n.entry_eq _ hi

def view : TreeView Node where
  kind n := n.entry.kind
  text n := n.entry.text
  children := children
  rank n := n.number.index
  rank_lt _ _ h := index_lt_of_mem_children h

/-- The number, the kind and, for a leaf, the text. -/
def describe (n : Node) : String :=
  "NodeRef \x7b id: NodeId(" ++ toString n.number.index ++ "), kind: " ++
    Text.quoted n.entry.kind ++
    (match n.entry.text with
      | some text => ", text: " ++ Text.quoted text
      | none => "") ++ " \x7d"

end Node
end Tree
end StructuralSearch
