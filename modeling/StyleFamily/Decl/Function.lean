import StyleFamily.Category
import StyleFamily.Decl.Type

/-!
# Functions of generated declarations

A generated function has one of a few bodies, named here for what they do. A language spells each
body in its own way; the interpreter runs it.
-/
namespace StyleFamily

structure Parameter where
  name : String
  type : TypeRef
  defaultsToNull : Bool := false
deriving DecidableEq

/-- The parameter made optional, with nothing as its default. -/
def Parameter.nullable (parameter : Parameter) : Parameter :=
  { parameter with type := .optional parameter.type, defaultsToNull := true }

/-- An argument of a constructing call. -/
inductive Argument
  /-- The value of a field, or the default where the field is unset. -/
  | resolve (property field : String) (category : Category) (fallback : Value)
  /-- What the sub-builder in a field builds. -/
  | buildDelegate (property builderField : String)
deriving DecidableEq

def Argument.property : Argument → String
  | .resolve property _ _ _ => property
  | .buildDelegate property _ => property

inductive Body
  | abstract
  /-- Stores a parameter in a field. -/
  | assignField (field parameter : String)
  /-- Hands a plain color on to another function as an interactive one. -/
  | promote (target parameter : String)
  /-- Runs a callback on the sub-builder in a field. -/
  | configure (builderField callback : String)
  /-- Makes an instance of a class. -/
  | instantiate (path : List String)
  /-- Makes an instance of a class from named arguments. -/
  | construct (className : String) (arguments : List Argument)
  /-- The only instance of a class. -/
  | singleton (object : String)
deriving DecidableEq

structure Function where
  name : String
  doc : Option String := none
  parameters : List Parameter := []
  returns : TypeRef
  overrides : Bool := false
  body : Body := .abstract
deriving DecidableEq

namespace Function

def isAbstract (function : Function) : Bool := function.body == .abstract

/-- The override that gives an inherited function its body; the documentation stays behind. -/
def implementation (function : Function) (body : Body) : Function :=
  { function with doc := none, overrides := true, body }

end Function
end StyleFamily
