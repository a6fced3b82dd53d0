import StyleFamily.Text

/-!
# Identifiers

A name that can stand for a declaration: ASCII letters, digits and underscores, not starting with
a digit. A component takes its name from the declaration that holds its properties.
-/
namespace StyleFamily

/-- A character an identifier may start with. -/
def isNameStart (c : Char) : Bool :=
  c.isAlpha || c == '_'

/-- A character an identifier may go on with. -/
def isNamePart (c : Char) : Bool :=
  c.isAlphanum || c == '_'

/-- Whether a name is an identifier. -/
def isIdentifier (name : String) : Bool :=
  match name.toList with
  | [] => false
  | c :: rest => isNameStart c && rest.all isNamePart

/-- The name before `suffix`: none if `holder` does not end so, or is nothing else. -/
def baseName? (holder suffix : String) : Option String :=
  (Text.withoutSuffix? holder suffix).filter (· ≠ "")

end StyleFamily
