import StyleFamily.Family.Assembly
import StyleFamily.Text.Debug

/-!
# Records and their builders

An interpreter for generated builders. From the declarations of a triad it reads which setters a
builder has, which field each of them fills, what every field falls back to, and which members are
built elsewhere; it then behaves as the emitted builder would.
-/
namespace StyleFamily

/-- What a generated builder can object to. -/
inductive ModelError
  | noNestedBuilder (className : String)
  | noBuild (contract : String)
  | noBuilderField (field property : String)
  | unexpectedBuild (contract : String) (body : Body)
  | noProperty (type name : String)
  | noSlot (type name : String)
  | wrongType (type name : String) (expected actual : ValueType)
  | noColorSetter (type name : String)
  | notBuilt (type member : String)
  | builtOtherwise (type member actual expected : String)
deriving DecidableEq

/-- A body as a message shows it. -/
def Body.shown : Body → String
  | .abstract => "Abstract"
  | .assignField field parameter =>
    "AssignField \x7b field: " ++ Text.quoted field ++ ", param: " ++ Text.quoted parameter ++
      " \x7d"
  | .promote target parameter =>
    "Convert \x7b target: " ++ Text.quoted target ++ ", param: " ++ Text.quoted parameter ++
      ", conversion: Interactive \x7d"
  | .configure builderField callback =>
    "Configure \x7b builder_field: " ++ Text.quoted builderField ++ ", callback: " ++
      Text.quoted callback ++ " \x7d"
  | .instantiate path =>
    "Instantiate \x7b path: [" ++ ", ".intercalate (path.map Text.quoted) ++ "] \x7d"
  | .construct .. => "Construct"
  | .singleton .. => "Singleton"

def ModelError.message : ModelError → String
  | .noNestedBuilder className => className ++ " has no nested builder"
  | .noBuild contract => contract ++ " builder has no build()"
  | .noBuilderField field property =>
    "no builder field '" ++ field ++ "' for '" ++ property ++ "'"
  | .unexpectedBuild contract body =>
    contract ++ " builder build() has an unexpected body: " ++ body.shown
  | .noProperty type name => type ++ " has no property '" ++ name ++ "'"
  | .noSlot type name => type ++ " has no slot for '" ++ name ++ "'"
  | .wrongType type name expected actual =>
    type ++ "." ++ name ++ " expects a " ++ expected.text ++ ", got a " ++ actual.text
  | .noColorSetter type name => type ++ " has no plain color setter '" ++ name ++ "'"
  | .notBuilt type member => type ++ " does not build '" ++ member ++ "'"
  | .builtOtherwise type member actual expected =>
    type ++ "." ++ member ++ " is built as " ++ actual ++ ", expected " ++ expected

/-- A built record: every property has a value. -/
structure Record where
  typeName : String
  fields : List (String × Value)

namespace Record

def get? (record : Record) (name : String) : Option Value := record.fields.lookup name

/-- Equality of records: the same type and the same values, in whatever order. -/
def same (a b : Record) : Bool :=
  a.typeName == b.typeName && a.fields.length == b.fields.length &&
    a.fields.all fun (name, value) => (b.get? name).any value.same

end Record

/-- A field of a builder: what it falls back to, and what it was set to. -/
structure Slot where
  field : String
  fallback : Value
  value : Option Value := none

/-- A member that another builder builds. -/
structure DelegateSlot where
  property : String
  contract : String

/-- The state of a generated builder. -/
structure RecordBuilder where
  typeName : String
  /-- The fields, each name once, in the order `build` lists them. -/
  slots : List Slot
  /-- Names of setters with the field each fills; of one name the last holds. -/
  setters : List (String × String)
  /-- Names of the overloads for plain colors with the setter each calls; the last holds. -/
  overloads : List (String × String)
  delegates : List DelegateSlot

/-- The slots with one more; a field that is there already is replaced where it stands. -/
def putSlot (slot : Slot) : List Slot → List Slot
  | [] => [slot]
  | other :: rest => if other.field = slot.field then slot :: rest else other :: putSlot slot rest

/-- The last entry of a name. -/
def lastOf? (name : String) (entries : List (String × String)) : Option String :=
  entries.reverse.lookup name

namespace RecordBuilder

/-- The contract whose builder a field is initialised with. -/
def contractOf? (builder : ClassSpec) (field : String) : Option String :=
  match (builder.properties.find? (·.name == field)).bind (·.initializer) with
  | some (.newBuilder contract) => some contract
  | _ => none

/-- Slots and delegates from the arguments of `build`. -/
def readArguments (builder : ClassSpec) :
    List Argument → List Slot × List DelegateSlot →
      Except ModelError (List Slot × List DelegateSlot)
  | [], read => .ok read
  | .resolve _ field _ fallback :: rest, (slots, delegates) =>
    readArguments builder rest (putSlot ⟨field, fallback, none⟩ slots, delegates)
  | .buildDelegate property field :: rest, (slots, delegates) =>
    match contractOf? builder field with
    | none => .error (.noBuilderField field property)
    | some contract => readArguments builder rest (slots, delegates ++ [⟨property, contract⟩])

/-- The setters of a nested builder. -/
def settersOf (functions : List Function) : List (String × String) :=
  functions.filterMap fun f => match f.body with
    | .assignField field _ => some (f.name, field)
    | _ => none

/-- The plain-color overloads of a builder's interface. -/
def overloadsOf (functions : List Function) : List (String × String) :=
  functions.filterMap fun f => match f.body with
    | .promote target _ => some (f.name, target)
    | _ => none

/-- The arguments of a body that makes a record. -/
def argumentsOf? : Body → Option (List Argument)
  | .singleton _ => some []
  | .construct _ arguments => some arguments
  | _ => none

/-- The fresh builder of a triad. -/
def ofTriad (triad : Triad) : Except ModelError RecordBuilder := do
  let some builder := triad.defaultImpl.nested? MemberName.nestedBuilder
    | .error (.noNestedBuilder triad.defaultImpl.name)
  let some build := builder.function? MemberName.build
    | .error (.noBuild triad.contract.name)
  let some arguments := argumentsOf? build.body
    | .error (.unexpectedBuild triad.contract.name build.body)
  let (slots, delegates) ← readArguments builder arguments ([], [])
  return { typeName := triad.contract.name, slots, delegates
           setters := settersOf builder.functions
           overloads := overloadsOf triad.builder.functions }

def slot? (builder : RecordBuilder) (field : String) : Option Slot :=
  builder.slots.find? (·.field == field)

/-- Sets a property; a later call replaces what an earlier one set. -/
def set (builder : RecordBuilder) (name : String) (value : Value) :
    Except ModelError RecordBuilder :=
  match lastOf? name builder.setters with
  | none => .error (.noProperty builder.typeName name)
  | some field =>
    match builder.slot? field with
    | none => .error (.noSlot builder.typeName name)
    | some slot =>
      if value.type = slot.fallback.type then
        .ok { builder with slots := putSlot { slot with value := some value } builder.slots }
      else .error (.wrongType builder.typeName name slot.fallback.type value.type)

/-- Sets a color property from a plain color. -/
def setColor (builder : RecordBuilder) (name : String) (color : Color) :
    Except ModelError RecordBuilder :=
  match lastOf? name builder.overloads with
  | none => .error (.noColorSetter builder.typeName name)
  | some target => builder.set target (.color color.interactive)

def isSet (builder : RecordBuilder) (field : String) : Bool :=
  (builder.slot? field).any (·.value.isSome)

/-- The flat properties in the order `build` lists them. -/
def names (builder : RecordBuilder) : List String := builder.slots.map (·.field)

/-- The record: every field with the value it was set to, or else its fallback. -/
def resolve (builder : RecordBuilder) : Record where
  typeName := builder.typeName
  fields := builder.slots.map fun slot => (slot.field, slot.value.getD slot.fallback)

end RecordBuilder
end StyleFamily
