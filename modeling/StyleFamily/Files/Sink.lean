import StyleFamily.Files.Access

/-!
# Source units and sinks

A unit of generated source is placed below an output directory by its package and its name, and
handed to a sink: a directory of files, or a list kept in memory.
-/
namespace StyleFamily

/-- A generated source file. -/
structure SourceUnit where
  name : String
  package : String
  extension : String
  content : String
deriving DecidableEq

/-- Where units go. -/
structure Target where
  package : String
  outputDirectory : Path
deriving DecidableEq

inductive WriteResult
  | written
  | unchanged
deriving DecidableEq

namespace SourceUnit

def fileName (unit : SourceUnit) : String := unit.name ++ "." ++ unit.extension

/-- One directory for each segment of the package, then the file. -/
def relativePath (unit : SourceUnit) : Path :=
  let segments := (Text.splitAt '.' unit.package).filter (· ≠ "")
  (segments.foldl (fun (path : Path) segment => path.join ⟨segment⟩) ⟨""⟩).join ⟨unit.fileName⟩

end SourceUnit

/-- The path a unit is placed at. -/
def Target.pathOf (target : Target) (unit : SourceUnit) : Path :=
  target.outputDirectory.join unit.relativePath

/-- Why a sink took no unit. -/
structure SinkError where
  message : String
deriving DecidableEq

/-- The file at a path could not be written. -/
def SinkError.unwritable (path : Path) : SinkError := ⟨"failed to write " ++ path.text⟩

/-- What a sink says of a unit: the path it stands at, and whether anything changed. -/
structure Receipt where
  path : Path
  result : WriteResult
deriving DecidableEq

/-- A taker of units. -/
structure Sink (m : Type → Type) where
  accept : SourceUnit → Target → m (Except SinkError Receipt)

/-- The sibling of a file that its new content is written to first. -/
def Path.draft (path : Path) : Path := ⟨path.text ++ ".tmp"⟩

/-- Replaces a file in one step: the new content is written beside it and then moved onto it. A
draft that could not be moved is removed. -/
def FileAccess.replace [Monad m] (files : FileAccess m) (path : Path) (text : String) :
    m Bool := do
  let ready ← match path.parent? with
    | none => pure true
    | some above => files.createDirectories above
  if !ready then return false
  if ← files.write path.draft text then
    if ← files.rename path.draft path then return true
  files.remove path.draft
  return false

/-- Units as files; a file that holds the content already is left alone. -/
def Sink.directory [Monad m] (files : FileAccess m) : Sink m where
  accept unit target := do
    let path := target.pathOf unit
    if (← files.read path) == some unit.content then return .ok ⟨path, .unchanged⟩
    if ← files.replace path unit.content then return .ok ⟨path, .written⟩
    return .error (.unwritable path)

/-- Units kept in memory, in the order their paths first came and under their first spelling. -/
structure MemoryStore where
  files : List (Path × String) := []
deriving DecidableEq

namespace MemoryStore

/-- The content at a path, however that path is spelled. -/
def get? (store : MemoryStore) (path : Path) : Option String :=
  (store.files.find? (·.1.same path)).map (·.2)

/-- The files with the first one at `path` holding `text`; a new path comes last. -/
def set (path : Path) (text : String) : List (Path × String) → List (Path × String)
  | [] => [(path, text)]
  | file :: rest => if file.1.same path then (file.1, text) :: rest else file :: set path text rest

/-- Takes a unit. -/
def accept (store : MemoryStore) (unit : SourceUnit) (target : Target) : Receipt × MemoryStore :=
  let path := target.pathOf unit
  if store.get? path = some unit.content then (⟨path, .unchanged⟩, store)
  else (⟨path, .written⟩, ⟨set path unit.content store.files⟩)

end MemoryStore

/-- Units kept in memory that is passed along. -/
def Sink.memory : Sink (StateM MemoryStore) where
  accept unit target := modifyGet fun store =>
    let (receipt, store) := store.accept unit target
    (.ok receipt, store)

end StyleFamily
