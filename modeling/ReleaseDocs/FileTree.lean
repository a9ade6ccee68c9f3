import ReleaseDocs.Error
import ReleaseDocs.Text.Fields
import ReleaseDocs.Text.Utf8

/-!
A tree of directories and files without links, and how a path is followed in it.

`lookup?_write`: writing a file changes the entry at one location and no other.
-/

namespace ReleaseDocs

/-- The names on the way from the root to an entry. -/
abbrev Location := List String

inductive FileEntry where
  | directory
  | file (content : Bytes)
deriving DecidableEq, Repr

/-- The entries of a tree, the directory that relative paths start from, and the files that refuse
to be written, each with the fault of an attempt. -/
structure FileTree where
  working : Location
  entries : List (Location × FileEntry)
  locked : List (Location × FileFault) := []
deriving DecidableEq, Repr

namespace FileTree

/-- The root is a directory, whatever is listed. -/
def lookup? (tree : FileTree) (location : Location) : Option FileEntry :=
  if location = [] then some .directory else tree.entries.lookup location

/-- The names in a path, empty ones between and after slashes included. -/
def pathNames (path : Path) : List String :=
  (fields '/' path.text.toList).map String.ofList

/-- Follows the names from a location. Every name is looked up in a directory; an empty name and
`.` stay there, and `..` leads to the directory above. -/
def walk (tree : FileTree) (location : Location) : List String → Except FileFault Location
  | [] => .ok location
  | name :: names =>
      match tree.lookup? location with
      | none => .error .missing
      | some (.file _) => .error .notDirectory
      | some .directory =>
          if name = "" ∨ name = "." then tree.walk location names
          else if name = ".." then tree.walk location.dropLast names
          else
            match tree.lookup? (location ++ [name]) with
            | none => .error .missing
            | some _ => tree.walk (location ++ [name]) names

def locate (tree : FileTree) (path : Path) : Except FileFault Location :=
  if path.text.isEmpty then .error .missing
  else tree.walk (if path.isAbsolute then [] else tree.working) (pathNames path)

def find (tree : FileTree) (path : Path) : Except FileFault FileEntry := do
  let location ← tree.locate path
  match tree.lookup? location with
  | some entry => .ok entry
  | none => .error .missing

def exists? (tree : FileTree) (path : Path) : Bool :=
  (tree.find path).toOption.isSome

def isDirectory (tree : FileTree) (path : Path) : Bool :=
  (tree.find path).toOption == some .directory

def readBytes (tree : FileTree) (path : Path) : Except FileFault Bytes := do
  match ← tree.find path with
  | .file content => .ok content
  | .directory => .error .isDirectory

def readText (tree : FileTree) (path : Path) : Except FileFault String := do
  match textOfBytes? (← tree.readBytes path) with
  | some text => .ok text
  | none => .error .notUnicode

def write (tree : FileTree) (location : Location) (content : Bytes) : FileTree :=
  { tree with
    entries := tree.entries.map fun entry =>
      if entry.1 = location then (entry.1, .file content) else entry }

/-- Writes a file that is there. One that refuses keeps its bytes. -/
def writeBytes (tree : FileTree) (path : Path) (content : Bytes) : Except FileFault FileTree := do
  let location ← tree.locate path
  match tree.lookup? location with
  | some (.file _) =>
      match tree.locked.lookup location with
      | some fault => .error fault
      | none => .ok (tree.write location content)
  | some .directory => .error .isDirectory
  | none => .error .missing

def add (tree : FileTree) (location : Location) (entry : FileEntry) : FileTree :=
  { tree with entries := tree.entries ++ [(location, entry)] }

/-- The tree in which the location and all locations above it are directories, unless something
else is there. -/
def ensureDirectory (tree : FileTree) (location : Location) : FileTree :=
  (List.range location.length).foldl
    (fun tree depth =>
      let above := location.take (depth + 1)
      if (tree.lookup? above).isSome then tree else tree.add above .directory)
    tree

/-- A tree that holds nothing but its working directory. -/
def empty (working : Location) : FileTree :=
  ensureDirectory { working, entries := [] } working

/-- Where a path would lead if all that it names existed. -/
def target (tree : FileTree) (path : Path) : Location :=
  (pathNames path).foldl
    (fun location name =>
      if name = "" ∨ name = "." then location
      else if name = ".." then location.dropLast
      else location ++ [name])
    (if path.isAbsolute then [] else tree.working)

def createDirectory (tree : FileTree) (path : Path) : FileTree :=
  tree.ensureDirectory (tree.target path)

def createFile (tree : FileTree) (path : Path) (content : Bytes) : FileTree :=
  let location := tree.target path
  let tree := tree.ensureDirectory location.dropLast
  match tree.lookup? location with
  | some _ => tree.write location content
  | none => tree.add location (.file content)

theorem lookup_map_write (entries : List (Location × FileEntry)) (location other : Location)
    (content : Bytes) :
    (entries.map fun entry =>
        if entry.1 = location then (entry.1, FileEntry.file content) else entry).lookup other =
      if other = location then (entries.lookup other).map fun _ => .file content
      else entries.lookup other := by
  induction entries with
  | nil => simp
  | cons entry entries ih =>
      obtain ⟨place, entry⟩ := entry
      by_cases hplace : place = location
      · subst hplace
        by_cases hother : other = place
        · subst hother
          simp
        · simp only [List.map_cons, ↓reduceIte, List.lookup_cons, hother, ih,
            beq_eq_false_iff_ne.2 hother]
      · by_cases hother : other = place
        · subst hother
          simp [hplace]
        · simp only [List.map_cons, hplace, ↓reduceIte, List.lookup_cons,
            beq_eq_false_iff_ne.2 hother, ih]

theorem lookup?_write {tree : FileTree} {location : Location} {old : Bytes}
    (h : tree.lookup? location = some (.file old)) (content : Bytes) (other : Location) :
    (tree.write location content).lookup? other =
      if other = location then some (.file content) else tree.lookup? other := by
  unfold lookup? at h
  split at h
  · simp at h
  · rename_i hne
    simp only [lookup?, write, lookup_map_write]
    by_cases hother : other = location
    · subst hother
      simp [hne, h]
    · simp [hother]

end FileTree

end ReleaseDocs
