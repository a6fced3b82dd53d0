import StyleFamily.Family.Assembly
import StyleFamily.Proofs.Family.Pattern

/-!
# Well-typed families

Declarations refer to one another by name only. A family is well typed when every such name stands
for exactly one thing and that thing fits: types and supertypes are declared, initial values and
bodies have the types of what they fill, and classes implement what they inherit.
-/
namespace StyleFamily

/-- Exactly one entry has the key, and it is this one. -/
def OnlyAt {α κ : Type} [DecidableEq κ] (key : α → κ) (entries : List α) (k : κ) (entry : α) :
    Prop :=
  entries.filter (key · = k) = [entry]

theorem onlyAt_of_nodup {α κ : Type} [DecidableEq κ] {key : α → κ} {entries : List α} {entry : α}
    (hn : (entries.map key).Nodup) (hm : entry ∈ entries) :
    OnlyAt key entries (key entry) entry := by
  rw [OnlyAt]
  induction entries with
  | nil => simp at hm
  | cons other rest ih =>
    rw [List.map_cons, List.nodup_cons] at hn
    rcases List.mem_cons.mp hm with rfl | hr
    · have hnone : rest.filter (key · = key entry) = [] := by
        rw [List.filter_eq_nil_iff]
        intro x hx
        have hne : key x ≠ key entry := fun he => hn.1 (he ▸ List.mem_map_of_mem hx)
        simpa using hne
      simp [hnone]
    · have hne : key other ≠ key entry := fun he => hn.1 (he ▸ List.mem_map_of_mem hr)
      simpa [hne] using ih hn.2 hr

/-- The declarations of the family that a type mentions. -/
def TypeRef.references : TypeRef → List String
  | .named name => [name]
  | .optional inner => inner.references
  | .callback returns => returns.references
  | .callbackOn receiver returns => receiver.references ++ returns.references
  | .value _ | .styleBase | .any | .unit => []

/-- The types in the head of a function. -/
def Function.types (function : Function) : List TypeRef :=
  function.returns :: function.parameters.map Parameter.type

namespace ClassSpec

/-- The properties of a class, those of its constructor first. -/
def fields (spec : ClassSpec) : List PropertySpec := spec.constructor ++ spec.properties

/-- A class with all that is nested in it, at any depth. -/
inductive Encloses : ClassSpec → ClassSpec → Prop
  | self (spec : ClassSpec) : Encloses spec spec
  | nested {spec inner other : ClassSpec} (hn : inner ∈ spec.nested) (he : Encloses inner other) :
    Encloses spec other

/-- The class has one fitting override for every member that the interface leaves open. -/
structure Implements (spec : ClassSpec) (interface : InterfaceSpec) : Prop where
  properties : ∀ p ∈ interface.properties,
    ∃ q, OnlyAt PropertySpec.name spec.fields p.name q ∧ q.overrides = true ∧ q.type = p.type
  functions : ∀ f ∈ interface.functions, f.isAbstract = true →
    ∃ g, OnlyAt Function.signature spec.functions f.signature g ∧ g.overrides = true ∧
      g.returns = f.returns

end ClassSpec

/-- What a function sees around it: the triad it is generated for, and the fields, functions and
supertypes of the declaration it stands in. -/
structure Site where
  triad : Triad
  fields : List PropertySpec := []
  functions : List Function := []
  supertypes : List String := []

/-- The type is one of the supertypes. -/
def IsSupertype (supertypes : List String) (type : TypeRef) : Prop :=
  ∃ name ∈ supertypes, type = .named name

namespace Artifacts
variable (artifacts : Artifacts)

def triads : List Triad := [artifacts.style, artifacts.colors, artifacts.dimensions]

/-- The name stands for exactly one declaration, this one. -/
def Resolves (name : String) (declaration : Declaration) : Prop :=
  OnlyAt Declaration.name artifacts.declarations name declaration

/-- Every name in the type stands for exactly one interface. -/
def Defines (type : TypeRef) : Prop :=
  ∀ name ∈ type.references, ∃ interface, artifacts.Resolves name (.ofInterface interface)

/-- The contract has one factory; called without arguments it returns the builder type. -/
def Makes (contract : String) (builder : TypeRef) : Prop :=
  ∃ interface functions factory, artifacts.Resolves contract (.ofInterface interface) ∧
    interface.companion = some functions ∧
    OnlyAt Function.name functions MemberName.factory factory ∧
    (∀ p ∈ factory.parameters, p.defaultsToNull = true) ∧ factory.returns = builder

/-- The builder type has one function `build`; it takes nothing and returns the result type. -/
def Builds (builder result : TypeRef) : Prop :=
  ∃ name interface build, builder = .named name ∧
    artifacts.Resolves name (.ofInterface interface) ∧
    OnlyAt Function.name interface.functions MemberName.build build ∧
    build.parameters = [] ∧ build.returns = result

/-- The initial value fits a field of the type. -/
def InitializerTyped (type : TypeRef) : Initializer → Prop
  | .null => type.isOptional = true
  | .newBuilder contract => artifacts.Makes contract type

/-- The argument fits a constructor property of the type. -/
def ArgumentTyped (fields : List PropertySpec) (type : TypeRef) : Argument → Prop
  | .resolve _ field category fallback =>
    type = .value category.valueType ∧ fallback.type = category.valueType ∧
      ∃ p, OnlyAt PropertySpec.name fields field p ∧ p.type = .optional type
  | .buildDelegate _ builderField =>
    ∃ p, OnlyAt PropertySpec.name fields builderField p ∧ artifacts.Builds p.type type

/-- The class of the site's triad that a body makes instances of. -/
def Instantiates (site : Site) (kind : ClassKind) (className : String) (type : TypeRef) : Prop :=
  artifacts.Resolves className (.ofClass site.triad.defaultImpl) ∧
    site.triad.defaultImpl.kind = kind ∧ IsSupertype site.triad.defaultImpl.supertypes type

/-- The body of a function does what the function's head promises. -/
def BodyTyped (site : Site) (function : Function) : Body → Prop
  | .abstract => True
  | .assignField field parameter =>
    IsSupertype site.supertypes function.returns ∧ ∃ type,
      (∃ p, OnlyAt PropertySpec.name site.fields field p ∧ p.isMutable = true ∧
        p.type = .optional type) ∧
      ∃ q, OnlyAt Parameter.name function.parameters parameter q ∧ q.type = type
  | .promote target parameter =>
    (∃ q, OnlyAt Parameter.name function.parameters parameter q ∧ q.type = .value .color) ∧
      ∃ f, OnlyAt Function.signature site.functions (target, [.value .interactiveColor]) f ∧
        f.returns = function.returns
  | .configure builderField callback =>
    IsSupertype site.supertypes function.returns ∧ ∃ builder,
      (∃ p, OnlyAt PropertySpec.name site.fields builderField p ∧ p.isMutable = false ∧
        p.type = builder) ∧
      ∃ q, OnlyAt Parameter.name function.parameters callback q ∧ q.type = .configure builder
  | .instantiate path => ∃ nested,
    path = [site.triad.defaultImpl.name, nested.name] ∧
      artifacts.Resolves site.triad.defaultImpl.name (.ofClass site.triad.defaultImpl) ∧
      site.triad.defaultImpl.nested = [nested] ∧ nested.name = MemberName.nestedBuilder ∧
      nested.constructor = [] ∧ IsSupertype nested.supertypes function.returns
  | .construct className arguments =>
    artifacts.Instantiates site .data className function.returns ∧
      arguments.map Argument.property = site.triad.defaultImpl.constructor.map PropertySpec.name ∧
      ∀ argument ∈ arguments,
        ∃ p, OnlyAt PropertySpec.name site.triad.defaultImpl.constructor argument.property p ∧
          artifacts.ArgumentTyped site.fields p.type argument
  | .singleton object =>
    artifacts.Instantiates site .dataObject object function.returns ∧
      site.triad.defaultImpl.constructor = []

structure PropertyTyped (p : PropertySpec) : Prop where
  type : artifacts.Defines p.type
  initializer : ∀ initializer ∈ p.initializer, artifacts.InitializerTyped p.type initializer

/-- The part of a function that its overrides inherit. -/
structure HeadTyped (function : Function) : Prop where
  types : ∀ type ∈ function.types, artifacts.Defines type
  parameters : (function.parameters.map Parameter.name).Nodup
  defaults : ∀ p ∈ function.parameters, p.defaultsToNull = true → p.type.isOptional = true

structure FunctionTyped (site : Site) (function : Function) : Prop where
  head : artifacts.HeadTyped function
  body : artifacts.BodyTyped site function function.body

structure InterfaceTyped (triad : Triad) (spec : InterfaceSpec) : Prop where
  propertyNames : (spec.properties.map PropertySpec.name).Nodup
  signatures : (spec.functions.map Function.signature).Nodup
  companionSignatures : ((spec.companion.getD []).map Function.signature).Nodup
  supertypes : ∀ type ∈ spec.supertypes, artifacts.Defines type
  properties : ∀ p ∈ spec.properties, artifacts.PropertyTyped p
  functions : ∀ f ∈ spec.functions,
    artifacts.FunctionTyped { triad, functions := spec.functions } f
  companion : ∀ f ∈ spec.companion.getD [], f.isAbstract = false ∧
    artifacts.FunctionTyped { triad, functions := spec.companion.getD [] } f

structure ClassTyped (triad : Triad) (spec : ClassSpec) : Prop where
  fieldNames : (spec.fields.map PropertySpec.name).Nodup
  signatures : (spec.functions.map Function.signature).Nodup
  supertypes : ∀ name ∈ spec.supertypes,
    ∃ interface, artifacts.Resolves name (.ofInterface interface) ∧ spec.Implements interface
  fields : ∀ p ∈ spec.fields, artifacts.PropertyTyped p
  initialized : ∀ p ∈ spec.properties, p.initializer.isSome = true
  functions : ∀ f ∈ spec.functions, f.isAbstract = false ∧
    artifacts.FunctionTyped
      { triad, fields := spec.fields, functions := spec.functions, supertypes := spec.supertypes } f

/-- Every reference of the family resolves inside it, and to something that fits. -/
structure WellTyped : Prop where
  names : (artifacts.declarations.map Declaration.name ++ [artifacts.accessor.name]).Nodup
  contracts : ∀ triad ∈ artifacts.triads, artifacts.InterfaceTyped triad triad.contract
  builders : ∀ triad ∈ artifacts.triads, artifacts.InterfaceTyped triad triad.builder
  classes : ∀ triad ∈ artifacts.triads, ∀ spec, triad.defaultImpl.Encloses spec →
    artifacts.ClassTyped triad spec
  accessor : ∃ builder, artifacts.Makes artifacts.accessor.style builder ∧
    artifacts.Builds builder (.named artifacts.accessor.style)

end Artifacts
end StyleFamily
