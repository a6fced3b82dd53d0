import StyleFamily.Document
import StyleFamily.Schema

/-!
# Schemas and values as documents

How values, schemas and what a scan found are written in a document. A variant without content is
only named; a number keeps a decimal point.
-/
namespace StyleFamily

open Document

/-- A finite number, always with a decimal point. -/
def Single.document (x : Single) : Document :=
  if x.exponentField = 255 then .null
  else .number (if x.text.toList.contains '.' then x.text else x.text ++ ".0")

/-- The name of the kind in a document. -/
def ValueType.document : ValueType → Document
  | .shape => .string "shape"
  | .shadowAppearance => .string "shadow_appearance"
  | .textStyle => .string "text_style"
  | .float => .string "float"
  | .interactiveColor => .string "interactive_color"
  | .color => .string "color"
  | .dp => .string "dp"

def Shape.document : Shape → Document
  | .rectangle => .object [("kind", .string "rectangle")]
  | .circle => .object [("kind", .string "circle")]
  | .roundedCorners radius =>
    .object [("kind", .string "rounded_corners"), ("radius", radius.document)]

def Shadow.document : Shadow → Document
  | .none => .object [("kind", .string "none")]
  | .elevation height => .object [("kind", .string "elevation"), ("elevation", height.document)]

def TextStyle.document : TextStyle → Document
  | .default => .object [("kind", .string "default")]
  | .named name => .object [("kind", .string "named"), ("name", .string name)]

def Color.document (c : Color) : Document := .nat c.argb.toNat

def InteractiveColor.document (c : InteractiveColor) : Document :=
  .object [("default", c.default.document), ("pressed", c.pressed.document),
    ("disabled", c.disabled.document)]

def Value.document (value : Value) : Document :=
  let (type, content) : String × Document := match value with
    | .shape s => ("shape", s.document)
    | .shadow s => ("shadow", s.document)
    | .textStyle s => ("text_style", s.document)
    | .float x => ("float", x.document)
    | .color c => ("color", c.document)
    | .dp x => ("dp", x.document)
  .object [("type", .string type), ("value", content)]

def Category.document (c : Category) : Document := .string c.text

def Properties.document (p : Properties) : Document :=
  .object [("shape_props", strings p.shape), ("shadow_props", strings p.shadow),
    ("float_value_props", strings p.floatValue), ("typography_props", strings p.typography),
    ("color_props", strings p.color), ("dimension_props", strings p.dimension)]

def Schema.document (s : Schema) : Document :=
  .object [("name", .string s.name), ("properties", s.properties.document)]

def Property.document (p : Property) : Document :=
  .object [("name", .string p.name), ("category", p.category.document)]

end StyleFamily
