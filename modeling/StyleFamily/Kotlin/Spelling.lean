import StyleFamily.Decl.Type
import StyleFamily.Kotlin.Symbol
import StyleFamily.Text

/-!
# Types and values in Kotlin

How Kotlin spells the types of members and the values they fall back to, and the symbols that each
spelling needs.
-/
namespace StyleFamily.Kotlin

/-- The spelling of a kind of value. -/
def typeName : ValueType → String
  | .shape => "Shape"
  | .shadowAppearance => "ShadowAppearance"
  | .textStyle => "TextStyle"
  | .float => "Float"
  | .interactiveColor => "InteractiveColor"
  | .color => "Color"
  | .dp => "Dp"

/-- The symbol behind a kind of value; a float is built in. -/
def typeSymbol? : ValueType → Option Symbol
  | .shape => some ⟨composeGraphics, "Shape"⟩
  | .shadowAppearance => some ⟨kitShadow, "ShadowAppearance"⟩
  | .textStyle => some ⟨composeText, "TextStyle"⟩
  | .float => none
  | .interactiveColor => some ⟨kitInteractions, "InteractiveColor"⟩
  | .color => some ⟨composeGraphics, "Color"⟩
  | .dp => some ⟨composeUnit, "Dp"⟩

/-- A type that admits null; a function type needs parentheses before the mark. -/
def optionalOf (inner : String) : String :=
  if Text.contains inner "->" then "(" ++ inner ++ ")?" else inner ++ "?"

/-- The spelling of a type. -/
def spellType : TypeRef → String
  | .value type => typeName type
  | .named name => name
  | .optional inner => optionalOf (spellType inner)
  | .callback returns => "() -> " ++ spellType returns
  | .callbackOn receiver returns => spellType receiver ++ ".() -> " ++ spellType returns
  | .styleBase => "Style"
  | .any => "Any"
  | .unit => "Unit"

/-- The symbols asked for with a type: those of its kinds of value, and the base of styles where
that is the whole type. -/
def typeSymbols (type : TypeRef) : List Symbol :=
  type.valueTypes.filterMap typeSymbol? ++
    if type = .styleBase then [⟨kitStyle, "Style"⟩] else []

def spellColor (c : Color) : String :=
  if c = Color.black then "Color.Black"
  else if c = Color.white then "Color.White"
  else if c = Color.transparent then "Color.Transparent"
  else "Color(0x" ++ c.hex ++ ")"

def spellStates (c : InteractiveColor) : String :=
  if c.isUniform then spellColor c.default ++ ".asInteractive()"
  else "InteractiveColor(default = " ++ spellColor c.default ++ ", pressed = " ++
    spellColor c.pressed ++ ", disabled = " ++ spellColor c.disabled ++ ")"

/-- The expression for a value. -/
def spellValue : Value → String
  | .shape .rectangle => "RectangleShape"
  | .shape .circle => "CircleShape"
  | .shape (.roundedCorners radius) => "RoundedCornerShape(" ++ radius.text ++ ".dp)"
  | .shadow .none => "ShadowAppearance()"
  | .shadow (.elevation height) => "ShadowAppearance(elevation = " ++ height.text ++ ".dp)"
  | .textStyle .default => "TextStyle.Default"
  | .textStyle (.named name) => name
  | .float number => number.text ++ "f"
  | .color states => spellStates states
  | .dp length => length.text ++ ".dp"

/-- The symbols in the expression for a value. -/
def valueSymbols : Value → List Symbol
  | .shape .rectangle => [⟨composeGraphics, "RectangleShape"⟩]
  | .shape .circle => [⟨composeShapes, "CircleShape"⟩]
  | .shape (.roundedCorners _) => [⟨composeShapes, "RoundedCornerShape"⟩, ⟨composeUnit, "dp"⟩]
  | .shadow .none => [⟨kitShadow, "ShadowAppearance"⟩]
  | .shadow (.elevation _) => [⟨kitShadow, "ShadowAppearance"⟩, ⟨composeUnit, "dp"⟩]
  | .textStyle .default => [⟨composeText, "TextStyle"⟩]
  | .textStyle (.named _) => []
  | .float _ => []
  | .color states =>
    if states.isUniform then [⟨composeGraphics, "Color"⟩, asInteractive]
    else [⟨composeGraphics, "Color"⟩, ⟨kitInteractions, "InteractiveColor"⟩]
  | .dp _ => [⟨composeUnit, "dp"⟩]

end StyleFamily.Kotlin
