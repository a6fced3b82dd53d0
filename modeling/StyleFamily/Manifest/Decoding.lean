import StyleFamily.Manifest
import StyleFamily.Toml.Document

/-!
# Manifests from TOML

A manifest's tables hold the fields below and no others. A table may also be written as an array of
its fields in their order; what an array leaves out at its end takes its default.
-/
namespace StyleFamily.Manifest

/-- Decodes a field that may be absent. -/
abbrev Field (α : Type) := Option Toml → Option α

def required (decode : Toml → Option α) : Field α
  | none => none
  | some value => decode value

def withDefault (default : α) (decode : Toml → Option α) : Field α
  | none => some default
  | some value => decode value

/-- The fields of a table, or of an array in their order; fails on a field of another name. -/
def fieldsOf (names : List String) : Toml → Option (String → Option Toml)
  | .table entries =>
    if entries.all fun entry => names.contains entry.1 then some (entries.lookup ·) else none
  | .array items => some ((names.zip items).lookup ·)
  | _ => none

def asString : Toml → Option String
  | .string text => some text
  | _ => none

/-- The items of an array, each decoded. -/
def asList (decode : Toml → Option α) : Toml → Option (List α)
  | .array items => items.mapM decode
  | _ => none

def asOutput (value : Toml) : Option OutputSettings := do
  let field ← fieldsOf ["package", "dir"] value
  let default : OutputSettings := {}
  return { package := ← withDefault default.package asString (field "package")
           directory := ⟨← withDefault default.directory.text asString (field "dir")⟩ }

def asScanner (value : Toml) : Option ScannerSettings := do
  let field ← fieldsOf ["owner", "suffix"] value
  let default : ScannerSettings := {}
  return { owner := ← withDefault default.owner asString (field "owner")
           suffix := ← withDefault default.suffix asString (field "suffix") }

def asParameter (value : Toml) : Option SourceParameter := do
  let field ← fieldsOf ["name", "type"] value
  return { name := ← required asString (field "name"), type := ← required asString (field "type") }

def asDeclaration (value : Toml) : Option SourceDeclaration := do
  let field ← fieldsOf ["name", "supertypes", "param"] value
  return { name := ← required asString (field "name")
           supertypes := ← withDefault [] (asList asString) (field "supertypes")
           parameters := ← withDefault [] (asList asParameter) (field "param") }

def ofToml? (value : Toml) : Option Manifest := do
  let field ← fieldsOf ["output", "scanner", "declaration"] value
  return { output := ← withDefault {} asOutput (field "output")
           scanner := ← withDefault {} asScanner (field "scanner")
           declarations := ← withDefault [] (asList asDeclaration) (field "declaration") }

/-- The manifest that a text spells, whether or not it makes sense. -/
def decode? (text : String) : Option Manifest := do
  ofToml? (.table (← Toml.read? text))

end StyleFamily.Manifest
