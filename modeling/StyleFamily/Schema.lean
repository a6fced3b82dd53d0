import StyleFamily.Category

/-!
# Component schemas

What is known of a component before its style family is built: a name, and for each category the
names of its properties in the order they were declared.
-/
namespace StyleFamily

/-- A property of a component. -/
structure Property where
  name : String
  category : Category
deriving DecidableEq

/-- The property names of a component, by category. -/
structure Properties where
  shape : List String := []
  shadow : List String := []
  floatValue : List String := []
  typography : List String := []
  color : List String := []
  dimension : List String := []
deriving DecidableEq

namespace Properties

/-- The names listed under a category. -/
def names (properties : Properties) : Category → List String
  | .shape => properties.shape
  | .shadow => properties.shadow
  | .floatValue => properties.floatValue
  | .typography => properties.typography
  | .color => properties.color
  | .dimension => properties.dimension

/-- The lists given by a function of the category. -/
def ofFunction (names : Category → List String) : Properties where
  shape := names .shape
  shadow := names .shadow
  floatValue := names .floatValue
  typography := names .typography
  color := names .color
  dimension := names .dimension

/-- The properties of the given categories, category by category. -/
def list (properties : Properties) (categories : List Category) : List Property :=
  categories.flatMap fun category => (properties.names category).map (⟨·, category⟩)

/-- How many properties there are over all categories. -/
def size (properties : Properties) : Nat :=
  Category.all.foldr (fun category n => (properties.names category).length + n) 0

@[simp] theorem names_ofFunction (f : Category → List String) (c : Category) :
    (ofFunction f).names c = f c := by cases c <;> rfl

theorem ofFunction_names (properties : Properties) : ofFunction properties.names = properties := rfl

end Properties

/-- A component and its properties. -/
structure Schema where
  name : String
  properties : Properties := {}
deriving DecidableEq

namespace Schema

/-- The flat properties of the style itself. -/
def styleProperties (schema : Schema) : List Property :=
  schema.properties.list Category.styleOrder

def colorProperties (schema : Schema) : List Property :=
  schema.properties.list [.color]

def dimensionProperties (schema : Schema) : List Property :=
  schema.properties.list [.dimension]

/-- The categories a name is listed under. -/
def categoriesOf (schema : Schema) (name : String) : List Category :=
  Category.all.filter fun category => (schema.properties.names category).contains name

end Schema

/-- A remark made while a component was looked for. -/
structure ScanNote where
  message : String
  location : Option String := none
deriving DecidableEq

/-- What looking for a component's declaration came to. -/
inductive ScanOutcome
  | found (schema : Schema) (notes : List ScanNote)
  | noHolder
  | underivableName (declaration suffix : String)
deriving DecidableEq

end StyleFamily
