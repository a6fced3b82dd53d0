import StyleFamily.Files.Path
import StyleFamily.Manifest.Quotation

/-!
# What can be wrong with a manifest

The causes for which a manifest is refused, and how each of them is reported: a message, a code, a
piece of advice where there is one, and labels on the text.
-/
namespace StyleFamily

/-- Why a name is no identifier. -/
inductive NameFault
  | empty
  | badStart
  | badPart
deriving DecidableEq

def NameFault.text : NameFault → String
  | .empty => "name cannot be empty"
  | .badStart => "name must start with a letter or underscore"
  | .badPart => "name must contain only letters, numbers, and underscores"

/-- Why a package is none. -/
inductive PackageFault
  | empty
  | emptySegment
  | segment (fault : NameFault)
deriving DecidableEq

def PackageFault.text : PackageFault → String
  | .empty => "package cannot be empty"
  | .emptySegment => "package contains an empty segment"
  | .segment fault => fault.text

/-- What a name is given to. -/
inductive Named
  | declaration
  | parameterOf (declaration : String)
deriving DecidableEq

def Named.text : Named → String
  | .declaration => "declaration"
  | .parameterOf holder => "parameter in '" ++ holder ++ "'"

inductive ManifestError
  | unreadable (path : Path)
  | malformed (fileName : String)
  | invalidPackage (package : String) (fault : PackageFault) (span : Option Span)
  | blankOwner
  | invalidName (name : String) (named : Named) (fault : NameFault) (span : Option Span)
  | repeatedDeclaration (name : String) (again : Option Span)
  | blankType (parameter declaration : String) (span : Option Span)
  | repeatedParameter (parameter declaration : String) (first again : Option Span)
deriving DecidableEq

namespace ManifestError

def message : ManifestError → String
  | unreadable path => "failed to read '" ++ path.text ++ "'"
  | malformed fileName => "'" ++ fileName ++ "' is not valid TOML for a manifest"
  | invalidPackage package _ _ => "'" ++ package ++ "' is not a valid package"
  | blankOwner => "scanner.owner cannot be empty"
  | invalidName name named _ _ => "'" ++ name ++ "' is not a valid " ++ named.text ++ " name"
  | repeatedDeclaration name _ => "declaration '" ++ name ++ "' is defined twice"
  | blankType parameter declaration _ =>
    "parameter '" ++ parameter ++ "' of '" ++ declaration ++ "' has an empty type"
  | repeatedParameter parameter declaration _ _ =>
    "'" ++ declaration ++ "' declares parameter '" ++ parameter ++ "' twice"

/-- The kind of the error, by which documentation refers to it. -/
def kind : ManifestError → String
  | unreadable _ => "io"
  | malformed _ => "parse_error"
  | invalidPackage .. => "invalid_package"
  | blankOwner | repeatedDeclaration .. | blankType .. => "validation_error"
  | invalidName .. => "invalid_identifier"
  | repeatedParameter .. => "duplicate_param"

def code (error : ManifestError) : String := "stylegen::" ++ error.kind

def help? : ManifestError → Option String
  | unreadable _ => some "pass the manifest location with '--config <path>'"
  | invalidPackage .. =>
    some "write the package as dot-separated identifiers, e.g. 'com.sdds.compose.uikit'"
  | invalidName _ _ fault _ =>
    some (fault.text ++ "; names are ASCII letters, digits and '_', not starting with a digit")
  | _ => none

/-- The parts of the text that the error is about, each with a remark if there is one. -/
def labels : ManifestError → List (Span × Option String)
  | invalidPackage _ fault span => span.toList.map (·, some fault.text)
  | invalidName _ _ fault span => span.toList.map (·, some fault.text)
  | repeatedDeclaration _ span => span.toList.map (·, none)
  | blankType _ _ span => span.toList.map (·, none)
  | repeatedParameter _ _ first again =>
    first.toList.map (·, some "first declared here") ++
      again.toList.map (·, some "declared again here")
  | _ => []

end ManifestError
end StyleFamily
