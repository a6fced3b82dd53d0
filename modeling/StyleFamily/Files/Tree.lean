import StyleFamily.Files.Access

/-!
# Trees of files

Directories and regular files without links, addressed by the names on the way from the root, and
the file operations on such a tree. A relative path starts at the working directory; every name on
the way but the last has to be that of a directory.
-/
namespace StyleFamily

/-- What stands at a place of a tree. -/
inductive Entry
  | directory
  | file (text : String)
deriving DecidableEq

/-- The names from the root down to a place. -/
abbrev Place := List String

/-- Directories and files by place; the root itself is not listed. -/
structure Tree where
  entries : List (Place × Entry) := []
  workingDirectory : Place := []
deriving DecidableEq

/-- Why a path leads nowhere. -/
inductive Obstacle
  /-- A name on the way does not exist. -/
  | missing
  /-- Anything else: a file where a directory has to be, an unusable name or path, a place that is
  taken. -/
  | refused
deriving DecidableEq

namespace Tree

/-- What stands at a place. -/
def entry? (tree : Tree) (place : Place) : Option Entry :=
  if place = [] then some .directory else tree.entries.lookup place

/-- The tree with an entry put at a place. -/
def put (tree : Tree) (place : Place) (entry : Entry) : Tree :=
  { tree with entries := (place, entry) :: tree.entries.filter (·.1 ≠ place) }

/-- The tree with nothing at a place. -/
def erase (tree : Tree) (place : Place) : Tree :=
  { tree with entries := tree.entries.filter (·.1 ≠ place) }

/-- A name that a directory can hold: of at most 255 bytes. -/
def isUsableName (name : String) : Bool := name.utf8ByteSize ≤ 255

/-- A path that can be followed at all, whatever stands on the way: of at most 4095 bytes as it is
spelled, and without the NUL character. -/
def isUsablePath (path : Path) : Bool :=
  path.text.utf8ByteSize ≤ 4095 && !path.text.toList.contains '\x00'

/-- Where the names lead from a place that has to be a directory. The last name need not exist. -/
def walk (tree : Tree) (place : Place) : List String → Except Obstacle Place
  | [] => .ok place
  | name :: rest =>
    match tree.entry? place with
    | none => .error .missing
    | some (.file _) => .error .refused
    | some .directory =>
      if name = "." then walk tree place rest
      else if name = ".." then walk tree place.dropLast rest
      else if isUsableName name then walk tree (place ++ [name]) rest
      else .error .refused

/-- The names a path spells, in order; separators between them may be repeated. -/
def namesOf (path : Path) : List String :=
  (Text.splitAt '/' path.text).filter (· ≠ "")

/-- The place a path means. -/
def locate (tree : Tree) (path : Path) : Except Obstacle Place :=
  if path.text = "" then .error .missing
  else if !isUsablePath path then .error .refused
  else tree.walk (if path.isAbsolute then [] else tree.workingDirectory) (namesOf path)

/-- Whether a path can only mean a directory, by the way it ends. -/
def endsAsDirectory (path : Path) : Bool :=
  match (Text.splitAt '/' path.text).getLast? with
  | none => false
  | some last => last == "" || last == "." || last == ".."

/-- What stands at the place a path means. -/
def at? (tree : Tree) (path : Path) : Option Entry :=
  match tree.locate path with
  | .ok place =>
    match tree.entry? place with
    | some (.file text) => if endsAsDirectory path then none else some (.file text)
    | other => other
  | .error _ => none

/-- The text of the file a path means. -/
def read (tree : Tree) (path : Path) : Option String :=
  match tree.at? path with
  | some (.file text) => some text
  | _ => none

/-- The tree with one more directory. -/
def createDirectory (tree : Tree) (path : Path) : Except Obstacle Tree := do
  let place ← tree.locate path
  match tree.entry? place, tree.entry? place.dropLast with
  | some _, _ => .error .refused
  | none, some .directory => .ok (tree.put place .directory)
  | none, some (.file _) => .error .refused
  | none, none => .error .missing

/-- Whether a path means a directory. -/
def isDirectory (tree : Tree) (path : Path) : Bool := tree.at? path == some .directory

/-- Creates a directory and, first, those above it that are missing. Whatever was created stays,
also where a later step fails. The fuel bounds the number of directories above. -/
def createDirectoriesWithin : Nat → Tree → Path → Bool × Tree
  | 0, tree, _ => (false, tree)
  | fuel + 1, tree, path =>
    if path.text = "" then (true, tree)
    else match tree.createDirectory path with
      | .ok tree => (true, tree)
      | .error .refused => (tree.isDirectory path, tree)
      | .error .missing =>
        match path.parent? with
        | none => (false, tree)
        | some above =>
          match createDirectoriesWithin fuel tree above with
          | (false, tree) => (false, tree)
          | (true, tree) =>
            match tree.createDirectory path with
            | .ok tree => (true, tree)
            | .error _ => (tree.isDirectory path, tree)

/-- Creates a directory and every missing one above it. -/
def createDirectories (tree : Tree) (path : Path) : Bool × Tree :=
  createDirectoriesWithin (path.text.length + 1) tree path

/-- The place a path offers to a file: its directory exists, and it is not a directory itself. -/
def fileSlot? (tree : Tree) (path : Path) : Option Place :=
  match tree.locate path with
  | .error _ => none
  | .ok place =>
    if endsAsDirectory path || tree.entry? place == some .directory ||
        tree.entry? place.dropLast != some .directory then none
    else some place

/-- Creates a file or replaces what it holds. -/
def write (tree : Tree) (path : Path) (text : String) : Bool × Tree :=
  match tree.fileSlot? path with
  | some place => (true, tree.put place (.file text))
  | none => (false, tree)

/-- Moves a file to a place that is free or holds a file. -/
def rename (tree : Tree) (source destination : Path) : Bool × Tree :=
  match tree.read source, tree.fileSlot? source, tree.fileSlot? destination with
  | some text, some old, some new => (true, (tree.erase old).put new (.file text))
  | _, _, _ => (false, tree)

/-- Removes the file a path means. -/
def remove (tree : Tree) (path : Path) : Tree :=
  match tree.read path, tree.locate path with
  | some _, .ok place => tree.erase place
  | _, _ => tree

/-- The operations on a tree that is passed along. -/
def access : FileAccess (StateM Tree) where
  read path := return (← get).read path
  createDirectories path := modifyGet (·.createDirectories path)
  write path text := modifyGet (·.write path text)
  rename source destination := modifyGet (·.rename source destination)
  remove path := modify (·.remove path)

end Tree
end StyleFamily
