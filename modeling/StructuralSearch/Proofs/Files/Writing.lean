import StructuralSearch.Files.FileSystem

/-!
# Writing files

What is written to a file is read there afterwards. All paths lead where they led before, links
included, and at any other location there is what was there before.
-/
namespace StructuralSearch

/-- Only a directory can be followed further. -/
def FileEntry.isDirectory : FileEntry → Bool
  | directory => true
  | file _ => false

namespace FileSystem

/-! ## What a location holds -/

theorem lookup_map_entry (entries : List (Location × FileEntry))
    (f : Location → FileEntry → FileEntry) (l : Location) :
    (entries.map fun e => (e.1, f e.1 e.2)).lookup l = (entries.lookup l).map (f l) := by
  induction entries with
  | nil => rfl
  | cons e rest ih =>
    rw [List.map_cons, List.lookup_cons]
    by_cases hl : l = e.1
    · subst hl
      rw [List.lookup_cons_self, beq_self_eq_true]
      rfl
    · have hne : (l == e.1) = false := beq_eq_false_iff_ne.2 hl
      rw [List.lookup_cons, hne]
      exact ih

/-- The entry at a location when the file at `location` has the text. -/
def putText (location : Location) (text : String) (l : Location) (e : FileEntry) : FileEntry :=
  if l = location then .file text.toByteArray else e

theorem entries_put {fs : FileSystem} {path : String} {location : Location}
    (hlocation : fs.locate path = .ok location) (text : String) :
    (fs.put path text).entries =
      fs.entries.map fun e => (e.1, putText location text e.1 e.2) := by
  rw [put, hlocation]
  refine List.map_congr_left fun e _ => ?_
  rw [putText]
  split
  · rfl
  · rfl

theorem entryAt?_put {fs : FileSystem} {path : String} {location : Location}
    (hlocation : fs.locate path = .ok location) (text : String) (l : Location) :
    (fs.put path text).entryAt? l =
      match fs.entries.lookup l with
      | some e => some (putText location text l e)
      | none => fs.entryAt? l := by
  unfold entryAt?
  rw [entries_put hlocation, lookup_map_entry]
  cases fs.entries.lookup l with
  | some e => rfl
  | none =>
    rw [List.any_map]
    rfl

theorem entryAt?_put_of_ne {fs : FileSystem} {path : String} {location l : Location}
    (hlocation : fs.locate path = .ok location) (text : String) (hl : l ≠ location) :
    (fs.put path text).entryAt? l = fs.entryAt? l := by
  rw [entryAt?_put hlocation]
  cases he : fs.entries.lookup l with
  | some e =>
    rw [entryAt?, he]
    exact congrArg some (if_neg hl)
  | none => rfl

theorem entryAt?_put_self {fs : FileSystem} {path old : String} {location : Location}
    (hlocation : fs.locate path = .ok location) (hold : fs.textAt location = .ok old)
    (text : String) : (fs.put path text).entryAt? location = some (.file text.toByteArray) := by
  obtain ⟨content, hcontent⟩ := exists_lookup_of_textAt hold
  rw [entryAt?_put hlocation, hcontent]
  exact congrArg some (if_pos rfl)

/-! ## Where paths lead -/

theorem exists_of_read_eq_ok {fs : FileSystem} {path text : String}
    (h : fs.read path = .ok text) :
    ∃ location, fs.locate path = .ok location ∧ fs.textAt location = .ok text := by
  rw [read] at h
  cases hlocation : fs.locate path with
  | error fault =>
    rw [hlocation] at h
    cases h
  | ok location =>
    rw [hlocation] at h
    exact ⟨location, rfl, h⟩

theorem traits_put (fs : FileSystem) (path text : String) :
    (fs.put path text).traits = fs.traits := by
  rw [put]
  split <;> rfl

section

variable {fs fs' : FileSystem} (htraits : fs'.traits = fs.traits)
  (h : ∀ l, (fs'.entryAt? l).map (·.isDirectory) = (fs.entryAt? l).map (·.isDirectory))

include htraits h

theorem walkWith_congr (onLink : Location → List String → Except FileFault Location)
    (here : Location) (parts : List String) :
    fs'.walkWith onLink here parts = fs.walkWith onLink here parts := by
  induction parts generalizing here with
  | nil =>
    have hnone := congrArg Option.isNone (h here)
    rw [Option.isNone_map, Option.isNone_map] at hnone
    rw [walkWith, walkWith, hnone]
  | cons part rest ih =>
    have hkind := h here
    rw [walkWith, walkWith, ih, ih, htraits]
    rcases he : fs.entryAt? here with _ | _ | content <;>
      rcases he' : fs'.entryAt? here with _ | _ | content' <;>
      rw [he, he'] at hkind <;> first | rfl | cases hkind

/-- Where a path leads depends on what is a directory and on the links, not on what files
contain. -/
theorem walk_congr (links : Nat) (here : Location) (parts : List String) :
    fs'.walk links here parts = fs.walk links here parts := by
  induction links generalizing here parts with
  | zero => exact walkWith_congr htraits h _ here parts
  | succ links ih =>
    have hlinks : fs'.walk links = fs.walk links := funext fun l => funext fun ps => ih l ps
    rw [walk, walk, hlinks]
    exact walkWith_congr htraits h _ here parts

end

/-- To write to a file leaves all paths leading where they led. -/
theorem locate_put {fs : FileSystem} {path old : String} (h : fs.read path = .ok old)
    (text p : String) : (fs.put path text).locate p = fs.locate p := by
  obtain ⟨location, hlocation, hold⟩ := exists_of_read_eq_ok h
  rw [locate, locate, locateFrom, locateFrom, walk_congr (traits_put fs path text)]
  intro l
  by_cases hl : l = location
  · subst hl
    obtain ⟨content, hcontent⟩ := exists_lookup_of_textAt hold
    rw [entryAt?_put_self hlocation hold, entryAt?, hcontent]
    rfl
  · rw [entryAt?_put_of_ne hlocation text hl]

/-! ## What is read afterwards -/

theorem openingFault?_of_textAt {fs : FileSystem} {location : Location} {text : String}
    (h : fs.textAt location = .ok text) : fs.traits.openingFault? location = none := by
  unfold textAt at h
  split at h
  · cases h
  · cases h
  · cases h
  · assumption

theorem read_put {fs : FileSystem} {path old : String} (h : fs.read path = .ok old)
    (text : String) : (fs.put path text).read path = .ok text := by
  obtain ⟨location, hlocation, hold⟩ := exists_of_read_eq_ok h
  have hvalid : String.fromUTF8? text.toByteArray = some text := dif_pos text.isValidUTF8
  rw [read, locate_put h, hlocation, Except.bind, textAt, entryAt?_put_self hlocation hold,
    traits_put, openingFault?_of_textAt hold]
  simp only [hvalid]

/-- Nothing stands against writing to the file that the path leads to. -/
def TakesWrites (fs : FileSystem) (path : String) : Prop :=
  ∀ l, fs.locate path = .ok l → fs.traits.writingFault? l = none

theorem write_of_takesWrites {fs : FileSystem} {path old : String} (h : fs.read path = .ok old)
    (hwrites : fs.TakesWrites path) (text : String) :
    fs.write path text = .ok (fs.put path text) := by
  obtain ⟨location, hlocation, -⟩ := exists_of_read_eq_ok h
  rw [write, hlocation, Except.bind]
  simp only [hwrites location hlocation]

/-- No location is one that both paths lead to. -/
def LeadApart (fs : FileSystem) (p q : String) : Prop :=
  ∀ l, fs.locate p = .ok l → fs.locate q ≠ .ok l

/-- Both lead a path to the same location, and hold and make the same of it. -/
structure SameAt (fs fs' : FileSystem) (p : String) : Prop where
  traits : fs'.traits = fs.traits
  locate : fs'.locate p = fs.locate p
  entry : ∀ l, fs.locate p = .ok l → fs'.entryAt? l = fs.entryAt? l

namespace SameAt

variable {fs fs' fs'' : FileSystem} {p : String}

theorem refl (fs : FileSystem) (p : String) : SameAt fs fs p :=
  ⟨rfl, rfl, fun _ _ => rfl⟩

theorem trans (h : SameAt fs fs' p) (h' : SameAt fs' fs'' p) : SameAt fs fs'' p where
  traits := h'.traits.trans h.traits
  locate := h'.locate.trans h.locate
  entry l hl := (h'.entry l (h.locate.trans hl)).trans (h.entry l hl)

theorem read_eq (h : SameAt fs fs' p) : fs'.read p = fs.read p := by
  rw [read, read, h.locate]
  cases hl : fs.locate p with
  | error fault => rfl
  | ok l =>
    show fs'.textAt l = fs.textAt l
    rw [textAt, textAt, h.entry l hl, h.traits]

theorem size_eq (h : SameAt fs fs' p) : fs'.size p = fs.size p := by
  rw [size, size, h.locate]
  cases hl : fs.locate p with
  | error fault => rfl
  | ok l =>
    show fs'.sizeAt l = fs.sizeAt l
    rw [sizeAt, sizeAt, h.entry l hl, h.traits]

end SameAt

/-- To write to one file leaves the others as they were. -/
theorem sameAt_put {fs : FileSystem} {path p old : String} (h : fs.read path = .ok old)
    (hapart : fs.LeadApart path p) (text : String) : SameAt fs (fs.put path text) p where
  traits := traits_put fs path text
  locate := locate_put h text p
  entry := by
    intro l hl
    obtain ⟨location, hlocation, -⟩ := exists_of_read_eq_ok h
    refine entryAt?_put_of_ne hlocation text fun he => ?_
    exact hapart location hlocation (he ▸ hl)

end FileSystem
end StructuralSearch
