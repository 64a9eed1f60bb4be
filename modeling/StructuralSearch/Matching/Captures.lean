/-!
# Captures

While matching, captured nodes are added to a log. A match is the log sorted by name: for every name
that was bound the nodes bound to it, in the order of binding. A log can be cut back to an earlier
length; `toList_add`, `toList_addRun` and `toList_backTo` say what becomes of its entries.
-/
namespace StructuralSearch

variable {ν : Type}

/-- A name and a node bound to it; no node when the name was bound to an empty run. -/
structure Binding (ν : Type) where
  name : String
  node : Option ν
  deriving DecidableEq

/-- Binds a run of nodes to a name. -/
def Binding.ofRun (name : String) (nodes : List ν) : List (Binding ν) :=
  match nodes with
  | [] => [⟨name, none⟩]
  | _ => nodes.map fun n => ⟨name, some n⟩

theorem Binding.exists_mem_ofRun (name : String) (nodes : List ν) :
    ∃ b, b ∈ Binding.ofRun name nodes := by
  cases nodes with
  | nil => exact ⟨_, List.mem_singleton_self _⟩
  | cons n rest => exact ⟨_, List.mem_cons_self⟩

theorem Binding.name_of_mem_ofRun {name : String} {nodes : List ν} {b : Binding ν}
    (h : b ∈ Binding.ofRun name nodes) : b.name = name := by
  cases nodes with
  | nil => rw [List.mem_singleton.1 h]
  | cons n rest =>
    obtain ⟨_, -, rfl⟩ := List.mem_map.1 h
    rfl

/-- The bindings made so far. The latest is kept in front, where adding and cutting back happen. -/
structure Log (ν : Type) where
  latestFirst : List (Binding ν)
  deriving DecidableEq

namespace Log

def empty : Log ν :=
  ⟨[]⟩

/-- The bindings in the order in which they were made. -/
def toList (l : Log ν) : List (Binding ν) :=
  l.latestFirst.reverse

def length (l : Log ν) : Nat :=
  l.latestFirst.length

def add (l : Log ν) (b : Binding ν) : Log ν :=
  ⟨b :: l.latestFirst⟩

def addRun (l : Log ν) (name : String) (nodes : List ν) : Log ν :=
  (Binding.ofRun name nodes).foldl add l

/-- Drops what was added after the log had the given length. -/
def backTo (l : Log ν) (length : Nat) : Log ν :=
  ⟨l.latestFirst.drop (l.length - length)⟩

/-- The nodes bound to a name. -/
def boundTo (l : Log ν) (name : String) : List ν :=
  l.toList.filterMap fun b => if b.name = name then b.node else none

/-- The names bound, each once, in increasing order. -/
def names (l : Log ν) : List String :=
  (l.toList.map (·.name)).eraseDups.mergeSort

@[simp] theorem toList_empty : (empty : Log ν).toList = [] := rfl

@[simp] theorem length_toList (l : Log ν) : l.toList.length = l.length :=
  List.length_reverse

@[simp] theorem toList_add (l : Log ν) (b : Binding ν) : (l.add b).toList = l.toList ++ [b] :=
  List.reverse_cons

@[simp] theorem toList_addRun (l : Log ν) (name : String) (nodes : List ν) :
    (l.addRun name nodes).toList = l.toList ++ Binding.ofRun name nodes := by
  unfold addRun
  induction Binding.ofRun name nodes generalizing l with
  | nil => simp
  | cons b rest ih => simp [ih]

@[simp] theorem toList_backTo (l : Log ν) (length : Nat) :
    (l.backTo length).toList = l.toList.take length := by
  simp only [backTo, toList, Log.length, List.take_reverse]

end Log

/-- What one way of matching binds: nodes by name, the names in increasing order. -/
structure Match (ν : Type) where
  captures : List (String × List ν)

namespace Match

def ofLog (log : Log ν) : Match ν where
  captures := log.names.map fun name => (name, log.boundTo name)

/-- The nodes bound to a name; none for a name that is not bound. -/
def get (m : Match ν) (name : String) : List ν :=
  (m.captures.lookup name).getD []

/-- The node bound to a name, if it is the only one. -/
def single? (m : Match ν) (name : String) : Option ν :=
  match m.get name with
  | [n] => some n
  | _ => none

def names (m : Match ν) : List String :=
  m.captures.map (·.1)

def contains (m : Match ν) (name : String) : Bool :=
  m.names.contains name

/-- The number of names bound. -/
def size (m : Match ν) : Nat :=
  m.captures.length

def isEmpty (m : Match ν) : Bool :=
  m.captures.isEmpty

end Match
end StructuralSearch
