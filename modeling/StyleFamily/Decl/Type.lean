import StyleFamily.Value

/-!
# Types of declared members

The types that generated declarations mention, apart from how a language spells them.
-/
namespace StyleFamily

inductive TypeRef
  /-- A kind of value. -/
  | value (type : ValueType)
  /-- A declaration of the family, by name. -/
  | named (name : String)
  | optional (inner : TypeRef)
  /-- A function without parameters. -/
  | callback (returns : TypeRef)
  /-- A function without parameters, called on a receiver. -/
  | callbackOn (receiver returns : TypeRef)
  /-- The base type of every style. -/
  | styleBase
  | any
  | unit
deriving DecidableEq

namespace TypeRef

/-- A function that configures a receiver. -/
def configure (receiver : TypeRef) : TypeRef := .callbackOn receiver .unit

def isOptional : TypeRef → Bool
  | .optional _ => true
  | _ => false

/-- The kinds of value in the type, from left to right. -/
def valueTypes : TypeRef → List ValueType
  | .value type => [type]
  | .optional inner => inner.valueTypes
  | .callback returns => returns.valueTypes
  | .callbackOn receiver returns => receiver.valueTypes ++ returns.valueTypes
  | .named _ | .styleBase | .any | .unit => []

end TypeRef
end StyleFamily
