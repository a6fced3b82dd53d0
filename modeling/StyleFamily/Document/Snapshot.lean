import StyleFamily.Document.Family
import StyleFamily.Files.Access
import StyleFamily.Pipeline

/-!
# Snapshots of a compilation

A plugin that records the context after every phase, in memory or as documents in a directory.
-/
namespace StyleFamily

open Document

/-- The context as it stood after a phase. -/
structure Snapshot where
  phase : String
  schema : Schema
  artifacts : Option Artifacts
  diagnostics : List Diagnostic

def Snapshot.capture (phase : String) (context : Context) : Snapshot :=
  ⟨phase, context.schema, context.artifacts, context.diagnostics⟩

def Diagnostic.document (d : Diagnostic) : Document :=
  .object [("severity", .string d.severity.text), ("phase", .string d.phase),
    ("message", .string d.message), ("location", text? d.location)]

/-- Artifacts that are not there yet are left out. -/
def Snapshot.document (s : Snapshot) : Document :=
  .object ([("phase", .string s.phase), ("schema", s.schema.document)] ++
    (s.artifacts.toList.map fun artifacts => ("artifacts", artifacts.document)) ++
    [("diagnostics", .array (s.diagnostics.map Diagnostic.document))])

/-- The onlooker that hands on a snapshot after every phase. -/
def Plugin.snapshots [Monad m] (record : Snapshot → ExceptT PipelineFailure m Unit) :
    Plugin m where
  name := "snapshot"
  before _ context := pure context
  after phase context := do
    record (.capture phase context)
    pure context

/-- Writes a snapshot into a directory, numbered from the first. -/
def Snapshot.save [Monad m] (files : FileAccess m) (directory : Path) (index : Nat)
    (snapshot : Snapshot) : m Bool := do
  if !(← files.createDirectories directory) then return false
  let name := toString index ++ "-" ++ snapshot.phase ++ ".json"
  files.write (directory.join ⟨name⟩) snapshot.document.pretty

end StyleFamily
