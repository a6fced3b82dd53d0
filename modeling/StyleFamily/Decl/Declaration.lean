import StyleFamily.Decl.Function

/-!
# Interfaces, classes and accessors

The declarations of a style family, apart from how a language spells them.
-/
namespace StyleFamily

/-- What a field holds at first. -/
inductive Initializer
  | null
  /-- A fresh builder from the factory of a contract. -/
  | newBuilder (contract : String)
deriving DecidableEq

structure PropertySpec where
  name : String
  type : TypeRef
  doc : Option String := none
  isPrivate : Bool := false
  isMutable : Bool := false
  overrides : Bool := false
  initializer : Option Initializer := none
deriving DecidableEq

structure InterfaceSpec where
  name : String
  doc : Option String := none
  immutable : Bool := false
  supertypes : List TypeRef := []
  properties : List PropertySpec := []
  functions : List Function := []
  /-- The functions of the companion, if there is one. -/
  companion : Option (List Function) := none
deriving DecidableEq

/-- The first function of a name. -/
def InterfaceSpec.function? (interface : InterfaceSpec) (name : String) : Option Function :=
  interface.functions.find? (·.name == name)

inductive ClassKind
  | plain
  | data
  | dataObject
deriving DecidableEq

structure ClassSpec where
  name : String
  doc : Option String := none
  isPrivate : Bool := false
  kind : ClassKind
  supertypes : List String := []
  constructor : List PropertySpec := []
  properties : List PropertySpec := []
  functions : List Function := []
  nested : List ClassSpec := []

namespace ClassSpec

/-- The first nested class of a name. -/
def nested? (spec : ClassSpec) (name : String) : Option ClassSpec :=
  spec.nested.find? (·.name == name)

/-- The first function of a name. -/
def function? (spec : ClassSpec) (name : String) : Option Function :=
  spec.functions.find? (·.name == name)

end ClassSpec

/-- The value through which the current style is reached. -/
structure AccessorSpec where
  name : String
  doc : Option String := none
  style : String
deriving DecidableEq

inductive Declaration
  | ofInterface (spec : InterfaceSpec)
  | ofClass (spec : ClassSpec)

def Declaration.name : Declaration → String
  | .ofInterface spec => spec.name
  | .ofClass spec => spec.name

end StyleFamily
