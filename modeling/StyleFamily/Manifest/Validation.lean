import StyleFamily.Manifest.Decoding
import StyleFamily.Manifest.Error
import StyleFamily.Text.Identifier

/-!
# Validation of manifests

The checks that a decoded manifest has to pass, in their order: the package, the owner, and then
declaration by declaration its name, its repetition, and its parameters one after another.
-/
namespace StyleFamily

/-- What keeps a name from being an identifier. -/
def nameFault? (name : String) : Option NameFault :=
  match name.toList with
  | [] => some .empty
  | c :: rest =>
    if !isNameStart c then some .badStart
    else if rest.all isNamePart then none
    else some .badPart

/-- What keeps a text from being a package. -/
def packageFault? (package : String) : Option PackageFault :=
  if package = "" then some .empty
  else
    let segments := Text.splitAt '.' package
    if segments.any (· == "") then some .emptySegment
    else (segments.findSome? nameFault?).map .segment

namespace Manifest

open Quotation

/-- The error of a name, if it is no identifier. -/
def checkName (source : List Char) (name : String) (named : Named) : Except ManifestError Unit :=
  match nameFault? name with
  | none => .ok ()
  | some fault => .error (.invalidName name named fault (span? source name))

/-- Parameter by parameter, `seen` holding the names of those before; they are looked up in the
source from an offset on. -/
def checkParameters (source : List Char) (declaration : String) (start : Nat) :
    List String → List SourceParameter → Except ManifestError Unit
  | _, [] => .ok ()
  | seen, p :: rest => do
    checkName source p.name (.parameterOf declaration)
    if (Text.trimmed p.type.toList).isEmpty then
      .error (.blankType p.name declaration (spanFrom? source p.name start))
    else if seen.contains p.name then
      let first := spanFrom? source p.name start
      .error (.repeatedParameter p.name declaration first (spanAfter? source p.name first))
    else checkParameters source declaration start (p.name :: seen) rest

/-- Where the parameters of a declaration are looked up: after its own name. -/
def parameterStart (source : List Char) (declaration : String) : Nat :=
  (span? source declaration).elim 0 Span.stop

/-- Declaration by declaration, `seen` holding the names of those before. -/
def checkDeclarations (source : List Char) :
    List String → List SourceDeclaration → Except ManifestError Unit
  | _, [] => .ok ()
  | seen, d :: rest => do
    checkName source d.name .declaration
    if seen.contains d.name then
      .error (.repeatedDeclaration d.name (spanAfter? source d.name (span? source d.name)))
    else
      checkParameters source d.name (parameterStart source d.name) [] d.parameters
      checkDeclarations source (d.name :: seen) rest

/-- All checks of a manifest with the given source. -/
def validate (source : List Char) (manifest : Manifest) : Except ManifestError Unit := do
  if let some fault := packageFault? manifest.output.package then
    .error (.invalidPackage manifest.output.package fault (span? source manifest.output.package))
  else if (Text.trimmed manifest.scanner.owner.toList).isEmpty then .error .blankOwner
  else checkDeclarations source [] manifest.declarations

/-- The manifest of a text; `fileName` names the text in errors. -/
def parse (text fileName : String) : Except ManifestError Manifest := do
  let some manifest := decode? text | .error (.malformed fileName)
  manifest.validate text.toList
  return manifest

/-- What a manifest is called that came without a name. -/
def defaultFileName : String := "stylegen.toml"

end Manifest
end StyleFamily
