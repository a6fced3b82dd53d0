/-!
# Diagnostics

What a compilation has to say of its input, by severity. Only an error keeps a family from being
emitted.
-/
namespace StyleFamily

inductive Severity
  | error
  | warning
  | info
deriving DecidableEq

def Severity.text : Severity → String
  | .error => "error"
  | .warning => "warning"
  | .info => "info"

structure Diagnostic where
  severity : Severity
  /-- The phase that found it. -/
  phase : String
  message : String
  location : Option String := none
deriving DecidableEq

namespace Diagnostic

/-- The diagnostic on one line. -/
def text (d : Diagnostic) : String :=
  "[" ++ d.phase ++ "] " ++ d.severity.text ++ ": " ++ d.message ++
    (match d.location with | some location => " at " ++ location | none => "")

def isError (d : Diagnostic) : Bool := d.severity == .error

/-- The diagnostics of a severity. -/
def ofSeverity (severity : Severity) (diagnostics : List Diagnostic) : List Diagnostic :=
  diagnostics.filter (·.severity == severity)

end Diagnostic
end StyleFamily
