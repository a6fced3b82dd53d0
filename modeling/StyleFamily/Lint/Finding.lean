import StyleFamily.Diagnostic
import StyleFamily.Schema

/-!
# Findings about a schema

Everything the standard lints can object to, with the wording and the place of each finding.
-/
namespace StyleFamily

inductive Finding
  | emptyComponentName
  | invalidComponentName (name : String)
  | lowercaseComponentName (name : String)
  | invalidPropertyName (property : Property)
  | capitalPropertyName (property : Property)
  | ambiguousProperty (property : Property) (categories : List Category)
  | duplicateProperty (property : Property)
  | reservedProperty (property : Property)
  | emptyGroup (category : Category)
deriving DecidableEq

/-- The list of a category, as locations name it. -/
def Category.location (category : Category) : String := category.text ++ "_props"

/-- The place of a property in its list. -/
def Property.location (property : Property) : String :=
  property.category.location ++ "." ++ property.name

namespace Finding

def severity : Finding → Severity
  | lowercaseComponentName _ | capitalPropertyName _ => .warning
  | emptyGroup _ => .info
  | _ => .error

def message : Finding → String
  | emptyComponentName => "component name is empty"
  | invalidComponentName name => "component name '" ++ name ++ "' is not a valid identifier"
  | lowercaseComponentName name =>
    "component name '" ++ name ++ "' starts with a lowercase letter; generated type names will too"
  | invalidPropertyName p => "property name '" ++ p.name ++ "' is not a valid identifier"
  | capitalPropertyName p =>
    "property name '" ++ p.name ++ "' should start with a lowercase letter"
  | ambiguousProperty p categories =>
    "property '" ++ p.name ++ "' is listed under several categories: " ++
      ", ".intercalate (categories.map Category.text)
  | duplicateProperty p => "duplicate " ++ p.category.text ++ " property '" ++ p.name ++ "'"
  | reservedProperty p =>
    p.category.text ++ " property '" ++ p.name ++ "' collides with a generated member"
  | emptyGroup category =>
    "no " ++ category.text ++ " properties; " ++
      (if category = .color then "colors" else "dimensions") ++ " will be empty"

def location : Finding → String
  | emptyComponentName | invalidComponentName _ | lowercaseComponentName _ => "name"
  | invalidPropertyName p | capitalPropertyName p | ambiguousProperty p _ | duplicateProperty p
  | reservedProperty p => p.location
  | emptyGroup category => category.location

/-- The phase that runs the lints. -/
def phase : String := "validate"

def diagnostic (finding : Finding) : Diagnostic :=
  ⟨finding.severity, phase, finding.message, some finding.location⟩

end Finding
end StyleFamily
