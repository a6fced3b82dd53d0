import StyleFamily.Family.Names
import StyleFamily.Lint.Finding
import StyleFamily.Text.Identifier

/-!
# Lints

A lint looks at a schema before anything is built from it. The six standard ones ask that the
component and its properties have usable names, that no name is listed twice or under several
categories, and that none is taken by a generated member.
-/
namespace StyleFamily

structure Lint where
  name : String
  description : String
  check : Schema → List Diagnostic

/-- A lint that reports findings. -/
def Lint.ofFindings (name description : String) (findings : Schema → List Finding) : Lint where
  name
  description
  check schema := (findings schema).map Finding.diagnostic

/-- Every occurrence of a property, category by category. -/
def Schema.occurrences (schema : Schema) : List Property :=
  schema.properties.list Category.all

/-- The occurrences whose name is neither among `seen` nor that of an earlier one. -/
def firstByName (seen : List String) : List Property → List Property
  | [] => []
  | p :: rest =>
    if seen.contains p.name then firstByName seen rest
    else p :: firstByName (p.name :: seen) rest

/-- The names that are among `seen` or stand earlier in the list. -/
def repeated (seen : List String) : List String → List String
  | [] => []
  | name :: rest =>
    if seen.contains name then name :: repeated seen rest else repeated (name :: seen) rest

/-- The members the style has beside its properties, and the fields behind them. -/
def styleMemberNames : List String :=
  [MemberName.colors, MemberName.dimensions, MemberName.builderField MemberName.colors,
    MemberName.builderField MemberName.dimensions]

/-- Whether a generated member has the name of the property. -/
def Property.isReserved (p : Property) : Bool :=
  p.name == MemberName.build ||
    Category.styleOrder.contains p.category && styleMemberNames.contains p.name

namespace Finding

def ofComponentName (schema : Schema) : List Finding :=
  if schema.name = "" then [emptyComponentName]
  else if !isIdentifier schema.name then [invalidComponentName schema.name]
  else if schema.name.toList.head?.any Char.isLower then [lowercaseComponentName schema.name]
  else []

def ofPropertyName (p : Property) : List Finding :=
  if !isIdentifier p.name then [invalidPropertyName p]
  else if p.name.toList.head?.any Char.isUpper then [capitalPropertyName p]
  else []

def ofPropertyNames (schema : Schema) : List Finding :=
  schema.occurrences.flatMap ofPropertyName

/-- A name under several categories is reported once, where it comes first. -/
def ofAmbiguity (schema : Schema) : List Finding :=
  (firstByName [] schema.occurrences).filterMap fun p =>
    let categories := schema.categoriesOf p.name
    if 2 ≤ categories.length then some (ambiguousProperty p categories) else none

/-- A name repeated within a category is reported at every repetition. -/
def ofDuplicates (schema : Schema) : List Finding :=
  Category.all.flatMap fun category =>
    (repeated [] (schema.properties.names category)).map fun name =>
      duplicateProperty ⟨name, category⟩

def ofReservedNames (schema : Schema) : List Finding :=
  (schema.occurrences.filter Property.isReserved).map reservedProperty

def ofEmptyGroups (schema : Schema) : List Finding :=
  ([Category.color, .dimension].filter fun category =>
    (schema.properties.names category).isEmpty).map emptyGroup

end Finding

namespace Lint

def componentName : Lint :=
  ofFindings "component-name" "Require a component name usable as a type name prefix"
    Finding.ofComponentName

def propertyNaming : Lint :=
  ofFindings "property-naming" "Check that property names are valid identifiers"
    Finding.ofPropertyNames

def ambiguousCategory : Lint :=
  ofFindings "ambiguous-category" "Detect properties assigned to more than one category"
    Finding.ofAmbiguity

def duplicateProperty : Lint :=
  ofFindings "duplicate-property" "Detect properties listed twice in one category"
    Finding.ofDuplicates

def reservedMember : Lint :=
  ofFindings "reserved-member" "Detect property names that collide with generated members"
    Finding.ofReservedNames

def emptyGroup : Lint :=
  ofFindings "empty-group" "Note empty colors or dimensions groups" Finding.ofEmptyGroups

/-- The lints of a pipeline that is not told otherwise. -/
def standard : List Lint :=
  [componentName, propertyNaming, ambiguousCategory, duplicateProperty, reservedMember, emptyGroup]

/-- What a list of lints has to say, lint by lint. -/
def checkAll (lints : List Lint) (schema : Schema) : List Diagnostic :=
  lints.flatMap (·.check schema)

/-- Whether the standard lints find no error in a schema. -/
def accepts (schema : Schema) : Bool :=
  !(checkAll standard schema).any Diagnostic.isError

end Lint
end StyleFamily
