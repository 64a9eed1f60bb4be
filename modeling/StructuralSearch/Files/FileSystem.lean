/-!
# Files

Files by location. A directory is there when it is listed or when something lies in it; so are the
working directory and those above it. Links are followed wherever a path comes upon one, and a
directory can be closed to those who look for something in it, a file to those who read it or write
to it. Two locations hold two files: that a file has several names other than by links is left out.
-/
namespace StructuralSearch

/-- The names that lead to a file or directory from the working directory, upwards first with `..`,
or from the topmost directory, which is named `/`. -/
abbrev Location := List String

namespace Location

/-- The location that a part of a path leads to. An empty part and a dot lead nowhere else. -/
def enter (here : Location) (part : String) : Location :=
  if part = "" || part = "." then here
  else if part = ".." then
    match here.getLast? with
    | none | some ".." => here ++ [".."]
    | some "/" => here
    | some _ => here.dropLast
  else here ++ [part]

/-- Where a path begins that is followed from a location: there, or at the topmost directory. -/
def origin (here : Location) (path : String) : Location :=
  if path.toList.head? = some '/' then ["/"] else here

/-- The parts of a path. -/
def parts (path : String) : List String :=
  (path.toList.splitOn '/').map String.ofList

/-- A path that leads to the location. -/
def toPath (location : Location) : String :=
  match location with
  | "/" :: rest => "/" ++ "/".intercalate rest
  | _ => "/".intercalate location

/-- The working directory, one above it, or the topmost one. -/
def isAncestor (location : Location) : Bool :=
  location.all (· = "..") || location == ["/"]

end Location

inductive FileEntry where
  | directory
  | file (content : ByteArray)

inductive FileFault where
  | notFound
  | notADirectory
  | isADirectory
  | tooManyLinks
  | notText
  /-- What the system has against it, such as a permission that is missing. -/
  | refused (message : String)
  deriving DecidableEq, Repr

def FileFault.message : FileFault → String
  | notFound => "No such file or directory (os error 2)"
  | notADirectory => "Not a directory (os error 20)"
  | isADirectory => "Is a directory (os error 21)"
  | tooManyLinks => "Too many levels of symbolic links (os error 40)"
  | notText => "stream did not contain valid UTF-8"
  | refused message => message

/-- What the system makes of locations besides what they hold. -/
structure Traits where
  /-- The path that leads on from a location, when a link lies there. -/
  link? : Location → Option String := fun _ => none
  /-- The size that a directory has. -/
  directorySize : Location → Nat := fun _ => 4096
  /-- What stands against looking for something in a directory. -/
  enteringFault? : Location → Option String := fun _ => none
  /-- What stands against opening a file or a directory to read it. -/
  openingFault? : Location → Option String := fun _ => none
  /-- What stands against writing to a file. -/
  writingFault? : Location → Option String := fun _ => none

structure FileSystem where
  entries : List (Location × FileEntry)
  traits : Traits := {}

namespace FileSystem

/-- The most links that are followed on one way. -/
def linkLimit : Nat := 40

def entryAt? (fs : FileSystem) (location : Location) : Option FileEntry :=
  match fs.entries.lookup location with
  | some entry => some entry
  | none =>
    if location.isAncestor || fs.entries.any fun e => location.isPrefixOf e.1 then some .directory
    else none

/-- Follows the parts of a path from a location up to a link, and from there `onLink` what is left.
Only a directory can be followed further, even by an empty part or a dot. -/
def walkWith (fs : FileSystem) (onLink : Location → List String → Except FileFault Location)
    (here : Location) : List String → Except FileFault Location
  | [] => if (fs.entryAt? here).isNone then .error .notFound else .ok here
  | part :: rest =>
    match fs.entryAt? here with
    | none => .error .notFound
    | some (.file _) => .error .notADirectory
    | some .directory =>
      if part = "" then fs.walkWith onLink here rest
      else
        match fs.traits.enteringFault? here with
        | some message => .error (.refused message)
        | none =>
          match fs.traits.link? (here.enter part) with
          | some path => onLink (Location.origin here path) (Location.parts path ++ rest)
          | none => fs.walkWith onLink (here.enter part) rest

/-- Follows the parts of a path from a location, over no more links than the number says. -/
def walk (fs : FileSystem) : Nat → Location → List String → Except FileFault Location
  | 0 => fs.walkWith fun _ _ => .error .tooManyLinks
  | links + 1 => fs.walkWith (fs.walk links)

/-- The location that a path leads to from a directory. -/
def locateFrom (fs : FileSystem) (here : Location) (path : String) : Except FileFault Location :=
  if path.isEmpty then .error .notFound
  else fs.walk linkLimit (Location.origin here path) (Location.parts path)

/-- The location that a path leads to from the working directory. -/
def locate (fs : FileSystem) (path : String) : Except FileFault Location :=
  fs.locateFrom [] path

/-- The number of bytes at a location. -/
def sizeAt (fs : FileSystem) (location : Location) : Except FileFault Nat :=
  match fs.entryAt? location with
  | none => .error .notFound
  | some .directory => .ok (fs.traits.directorySize location)
  | some (.file content) => .ok content.size

/-- The text of the file at a location. -/
def textAt (fs : FileSystem) (location : Location) : Except FileFault String :=
  match fs.entryAt? location, fs.traits.openingFault? location with
  | none, _ => .error .notFound
  | some _, some message => .error (.refused message)
  | some .directory, none => .error .isADirectory
  | some (.file content), none =>
    match String.fromUTF8? content with
    | some text => .ok text
    | none => .error .notText

/-- The number of bytes of a file. -/
def size (fs : FileSystem) (path : String) : Except FileFault Nat :=
  (fs.locate path).bind fs.sizeAt

/-- The text of a file. -/
def read (fs : FileSystem) (path : String) : Except FileFault String :=
  (fs.locate path).bind fs.textAt

theorem exists_lookup_of_textAt {fs : FileSystem} {location : Location} {text : String}
    (h : fs.textAt location = .ok text) :
    ∃ content, fs.entries.lookup location = some (.file content) := by
  unfold textAt at h
  split at h
  · cases h
  · cases h
  · cases h
  · rename_i content hentry _
    unfold entryAt? at hentry
    split at hentry
    · rename_i hlookup
      cases hentry
      exact ⟨content, hlookup⟩
    · split at hentry <;> cases hentry

theorem exists_entry_of_textAt {fs : FileSystem} {location : Location} {text : String}
    (h : fs.textAt location = .ok text) : ∃ e ∈ fs.entries, e.1 = location := by
  obtain ⟨content, hcontent⟩ := exists_lookup_of_textAt h
  obtain ⟨before, after, he, -⟩ := List.lookup_eq_some_iff.1 hcontent
  exact ⟨(location, .file content), by simp [he], rfl⟩

/-- Puts a text in the place of the file that a path leads to. -/
def put (fs : FileSystem) (path text : String) : FileSystem :=
  match fs.locate path with
  | .error _ => fs
  | .ok location =>
    { fs with
      entries := fs.entries.map fun e =>
        if e.1 = location then (e.1, .file text.toByteArray) else e }

/-- Writes a text to the file that a path leads to, unless something stands against it. -/
def write (fs : FileSystem) (path text : String) : Except FileFault FileSystem :=
  (fs.locate path).bind fun location =>
    match fs.traits.writingFault? location with
    | some message => .error (.refused message)
    | none => .ok (fs.put path text)

/-- The files that have another content afterwards. -/
def changes (before after : FileSystem) : List (Location × ByteArray) :=
  after.entries.filterMap fun e =>
    match before.entryAt? e.1, e.2 with
    | some (.file old), .file new => if old.data == new.data then none else some (e.1, new)
    | _, _ => none

end FileSystem
end StructuralSearch
