import StyleFamily.Number.Single

/-!
# Style values

What a style property can hold, apart from the language a family is written in: shapes, shadows,
text styles, numbers, lengths and colors that react to interaction.
-/
namespace StyleFamily

/-- The kinds of value a member can be declared with. -/
inductive ValueType
  | shape | shadowAppearance | textStyle | float | interactiveColor | color | dp
deriving DecidableEq

/-- The name of the kind in messages. -/
def ValueType.text : ValueType → String
  | .shape => "shape"
  | .shadowAppearance => "shadow appearance"
  | .textStyle => "text style"
  | .float => "float"
  | .interactiveColor => "interactive color"
  | .color => "color"
  | .dp => "dp"

inductive Shape
  | rectangle
  | circle
  | roundedCorners (radius : Single)
deriving DecidableEq

inductive Shadow
  | none
  | elevation (height : Single)
deriving DecidableEq

inductive TextStyle
  | default
  | named (name : String)
deriving DecidableEq

/-- A color by its channels, alpha in the highest byte, then red, green and blue. -/
structure Color where
  argb : UInt32
deriving DecidableEq

/-- A color for each state of interaction. -/
structure InteractiveColor where
  default : Color
  pressed : Color
  disabled : Color
deriving DecidableEq

namespace Color

def black : Color := ⟨0xFF000000⟩
def white : Color := ⟨0xFFFFFFFF⟩
def transparent : Color := ⟨0⟩

/-- The color in every state. -/
def interactive (c : Color) : InteractiveColor := ⟨c, c, c⟩

def alpha (c : Color) : Nat := c.argb.toNat / Nat.pow 2 24

/-- The channels as eight capital hexadecimal digits. -/
def hex (c : Color) : String :=
  let digits := (Nat.toDigits 16 c.argb.toNat).map Char.toUpper
  String.ofList (List.replicate (8 - digits.length) '0' ++ digits)

/-- The color in messages: three colors go by name. -/
def text (c : Color) : String :=
  if c = black then "black"
  else if c = white then "white"
  else if c = transparent then "transparent"
  else "#" ++ c.hex

end Color

namespace InteractiveColor

def isUniform (c : InteractiveColor) : Bool :=
  c.default == c.pressed && c.default == c.disabled

def text (c : InteractiveColor) : String :=
  if c.isUniform then c.default.text ++ " (interactive)"
  else c.default.text ++ " / pressed " ++ c.pressed.text ++ " / disabled " ++ c.disabled.text

end InteractiveColor

/-- A value of a style property. -/
inductive Value
  | shape (shape : Shape)
  | shadow (shadow : Shadow)
  | textStyle (style : TextStyle)
  | float (number : Single)
  | color (states : InteractiveColor)
  | dp (length : Single)
deriving DecidableEq

namespace Value

def type : Value → ValueType
  | .shape _ => .shape
  | .shadow _ => .shadowAppearance
  | .textStyle _ => .textStyle
  | .float _ => .float
  | .color _ => .interactiveColor
  | .dp _ => .dp

/-- The value in messages. -/
def text : Value → String
  | .shape .rectangle => "rectangle"
  | .shape .circle => "circle"
  | .shape (.roundedCorners radius) => "rounded corners (" ++ radius.text ++ "dp)"
  | .shadow .none => "no shadow"
  | .shadow (.elevation height) => "elevation " ++ height.text ++ "dp"
  | .textStyle .default => "default text style"
  | .textStyle (.named name) => "text style " ++ name
  | .float number => number.text
  | .color states => states.text
  | .dp length => length.text ++ "dp"

/-- Equality of values, where numbers compare as numbers. -/
def same : Value → Value → Bool
  | .shape (.roundedCorners x), .shape (.roundedCorners y) => x.same y
  | .shadow (.elevation x), .shadow (.elevation y) => x.same y
  | .float x, .float y => x.same y
  | .dp x, .dp y => x.same y
  | x, y => x == y

end Value
end StyleFamily
