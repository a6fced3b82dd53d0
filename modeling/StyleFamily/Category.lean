import StyleFamily.Text
import StyleFamily.Value

/-!
# Property categories

Every style property belongs to one of six categories. A category fixes the kind of value a
property takes, the value it has when nobody sets it, and the marker by which a declared type is
recognised.
-/
namespace StyleFamily

inductive Category
  | shape | shadow | typography | floatValue | color | dimension
deriving DecidableEq

namespace Category

/-- The categories in the order of their declaration. -/
def all : List Category := [shape, shadow, typography, floatValue, color, dimension]

/-- The order in which markers are tried: the first one found in a type decides. -/
def classificationOrder : List Category := [color, dimension, typography, floatValue, shape, shadow]

/-- The order in which the style itself lists its flat properties. -/
def styleOrder : List Category := [typography, shape, shadow, floatValue]

/-- The name of the category in messages and locations. -/
def text : Category → String
  | shape => "shape"
  | shadow => "shadow"
  | typography => "typography"
  | floatValue => "float_value"
  | color => "color"
  | dimension => "dimension"

/-- The word that marks a declared type as belonging to the category. -/
def marker : Category → String
  | shape => "Shape"
  | shadow => "Shadow"
  | typography => "Typography"
  | floatValue => "FloatValue"
  | color => "Color"
  | dimension => "Dimension"

/-- What the documentation of a generated property calls it. -/
def description : Category → String
  | shape => "Shape"
  | shadow => "Shadow"
  | typography => "Text style"
  | floatValue => "Value"
  | color => "Color"
  | dimension => "Dimension"

/-- The kind of value a property of the category takes. -/
def valueType : Category → ValueType
  | shape => .shape
  | shadow => .shadowAppearance
  | typography => .textStyle
  | floatValue => .float
  | color => .interactiveColor
  | dimension => .dp

/-- The value of a property nobody sets. -/
def defaultValue : Category → Value
  | shape => .shape .rectangle
  | shadow => .shadow .none
  | typography => .textStyle .default
  | floatValue => .float .half
  | color => .color Color.black.interactive
  | dimension => .dp .eight

/-- Whether properties of the category live in a group of their own beside the style. -/
def isDelegated : Category → Bool
  | color | dimension => true
  | _ => false

/-- The categories whose marker stands in a declared type, first the one that decides. -/
def ofType (type : String) : List Category :=
  classificationOrder.filter fun category => Text.contains type category.marker

theorem mem_all (c : Category) : c ∈ all := by cases c <;> decide

theorem mem_classificationOrder (c : Category) : c ∈ classificationOrder := by cases c <;> decide

/-- A default is of the kind its category takes. -/
theorem type_defaultValue (c : Category) : c.defaultValue.type = c.valueType := by cases c <;> rfl

end Category
end StyleFamily
