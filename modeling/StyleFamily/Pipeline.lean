import StyleFamily.Family.Assembly
import StyleFamily.Lint

/-!
# The compilation pipeline

A schema is compiled in phases: the lints, the assembly, and any phases added to them. Plugins look
on before and after every phase. A phase or a plugin may add diagnostics or stop the run; after a
phase that leaves an error behind no further phase begins.
-/
namespace StyleFamily

/-- What the phases of one compilation share. -/
structure Context where
  schema : Schema
  artifacts : Option Artifacts := none
  diagnostics : List Diagnostic := []

namespace Context

def hasErrors (context : Context) : Bool := context.diagnostics.any Diagnostic.isError

/-- The context with more diagnostics. -/
def report (context : Context) (diagnostics : List Diagnostic) : Context :=
  { context with diagnostics := context.diagnostics ++ diagnostics }

end Context

/-- Why a run was stopped. -/
inductive PipelineFailure
  /-- A phase or a plugin gave up. -/
  | stopped (message : String)
  /-- A snapshot could not be written. -/
  | unwritable
deriving DecidableEq

/-- The wording of a failure; what the storage has to say of itself is left out. -/
def PipelineFailure.messages : PipelineFailure → List String
  | .stopped message => [message]
  | .unwritable => []

/-- A step of a run, with effects of the setting it runs in. -/
abbrev Step (m : Type → Type) := Context → ExceptT PipelineFailure m Context

structure Phase (m : Type → Type) where
  name : String
  description : String
  run : Step m

/-- An onlooker. Its steps are told the name of the phase. -/
structure Plugin (m : Type → Type) where
  name : String
  before : String → Step m
  after : String → Step m

structure Pipeline (m : Type → Type) where
  lints : List Lint := Lint.standard
  extraPhases : List (Phase m) := []
  plugins : List (Plugin m) := []

namespace Phase

def validate [Monad m] (lints : List Lint) : Phase m where
  name := "validate"
  description := "Lint the scanned schema and record diagnostics"
  run context := pure (context.report (Lint.checkAll lints context.schema))

def assemble [Monad m] : Phase m where
  name := "assemble"
  description := "Build the style family declarations"
  run context := pure { context with artifacts := some (StyleFamily.assemble context.schema) }

end Phase

namespace Pipeline

variable [Monad m]

/-- All phases in the order they run. -/
def phases (pipeline : Pipeline m) : List (Phase m) :=
  [.validate pipeline.lints, .assemble] ++ pipeline.extraPhases

/-- A phase between the plugins' steps before and after it. -/
def runPhase (plugins : List (Plugin m)) (phase : Phase m) : Step m := fun context => do
  let context ← plugins.foldlM (fun context plugin => plugin.before phase.name context) context
  let context ← phase.run context
  plugins.foldlM (fun context plugin => plugin.after phase.name context) context

/-- Phases one after another, up to one that leaves an error behind. -/
def runPhases (plugins : List (Plugin m)) : List (Phase m) → Step m
  | [], context => pure context
  | phase :: rest, context => do
    let context ← runPhase plugins phase context
    if context.hasErrors then pure context else runPhases plugins rest context

/-- Compiles a context. -/
def run (pipeline : Pipeline m) : Step m := runPhases pipeline.plugins pipeline.phases

end Pipeline
end StyleFamily
