import Mathlib.Data.List.Forall2
import StyleFamily.Proofs.Family.Pattern

/-!
# The default implementation conforms to the builder's interface

A builder's interface declares for each member, in their order, one setter that it leaves open, for
a color directly followed by a second one with a body, and `build` at the end. The builder nested in
the default implementation overrides what is left open and nothing else, in the same order, and
whatever else is generated for a member stands at the member's place. Members may share names: their
parts are told apart by place, never looked up.
-/
namespace StyleFamily

def Member.isColor : Member → Bool
  | .flat p => p.category == .color
  | .delegate _ => false

/-- What the setter of a member takes: a value, or a callback on the builder behind the member. -/
def Member.accepted : Member → TypeRef
  | .flat p => .value p.category.valueType
  | .delegate d => .callbackOn (.named d.builder) .unit

namespace Function

/-- An open function that takes what its member accepts and returns the builder. -/
structure Sets (function : Function) (builder : TypeRef) (member : Member) : Prop where
  isAbstract : function.isAbstract = true
  name : function.name = member.name
  parameter : ∃ p, function.parameters = [p] ∧ p.type = member.accepted ∧ p.defaultsToNull = false
  returns : function.returns = builder

/-- A function that takes a plain color and hands it on to a setter of the same name. -/
structure Overloads (function setter : Function) : Prop where
  name : function.name = setter.name
  body : ∃ p, function.parameters = [p] ∧ p.type = .value .color ∧ p.defaultsToNull = false ∧
    function.body = .promote setter.name p.name
  returns : function.returns = setter.returns

/-- The open function that returns the result. -/
structure Ends (function : Function) (result : TypeRef) : Prop where
  isAbstract : function.isAbstract = true
  name : function.name = "build"
  parameters : function.parameters = []
  returns : function.returns = result

/-- A function with the head of an inherited one, a body of its own and no documentation. -/
structure Implements (function inherited : Function) : Prop where
  name : function.name = inherited.name
  parameters : function.parameters = inherited.parameters
  returns : function.returns = inherited.returns
  overrides : function.overrides = true
  doc : function.doc = none
  body : function.isAbstract = false

end Function

/-- The functions of a builder's interface, member by member. -/
inductive Declares (builder result : TypeRef) : List Member → List Function → Prop
  | build {f : Function} (hf : f.Ends result) : Declares builder result [] [f]
  | setter {member : Member} {members : List Member} {f : Function} {functions : List Function}
    (hc : member.isColor = false) (hf : f.Sets builder member)
    (hr : Declares builder result members functions) :
    Declares builder result (member :: members) (f :: functions)
  | colorSetter {member : Member} {members : List Member} {f overload : Function}
    {functions : List Function} (hc : member.isColor = true) (hf : f.Sets builder member)
    (ho : overload.Overloads f) (hr : Declares builder result members functions) :
    Declares builder result (member :: members) (f :: overload :: functions)

/-- The arguments of a constructing call. -/
def Body.arguments : Body → List Argument
  | .construct _ arguments => arguments
  | _ => []

/-- A flat property is an override in the result, an unset field in the builder, a setter that
stores its parameter in that field, and an argument that falls back on the category's default. -/
structure FlatParts (p : Property) (override field : PropertySpec) (setter : Function)
    (argument : Argument) : Prop where
  override_name : override.name = p.name
  override_type : override.type = .value p.category.valueType
  overrides : override.overrides = true
  field_name : field.name = p.name
  field_type : field.type = .optional override.type
  field_private : field.isPrivate = true
  field_mutable : field.isMutable = true
  field_initial : field.initializer = some .null
  setter_name : setter.name = p.name
  stores : ∃ q, setter.parameters = [q] ∧ q.type = override.type ∧
    setter.body = .assignField field.name q.name
  argument : argument = .resolve override.name field.name p.category p.category.defaultValue

/-- A delegate is an override in the result, a field that holds a fresh builder throughout, a setter
that runs its parameter on that builder, and an argument that takes what it has built. -/
structure DelegateParts (d : Delegate) (override field : PropertySpec) (setter : Function)
    (argument : Argument) : Prop where
  override_name : override.name = d.member
  override_type : override.type = .named d.contract
  overrides : override.overrides = true
  field_name : field.name = d.member ++ "Builder"
  field_type : field.type = .named d.builder
  field_private : field.isPrivate = true
  field_fixed : field.isMutable = false
  field_initial : field.initializer = some (.newBuilder d.contract)
  setter_name : setter.name = d.member
  configures : ∃ q, setter.parameters = [q] ∧ q.type = .callbackOn field.type .unit ∧
    setter.body = .configure field.name q.name
  argument : argument = .buildDelegate override.name field.name

def Member.Parts : Member → PropertySpec → PropertySpec → Function → Argument → Prop
  | .flat p => FlatParts p
  | .delegate d => DelegateParts d

/-- Each list of an implementation and of its builder has one entry a member, at its place; behind
the setters of the members the builder has one function more. -/
structure Aligned (members : List Member) (implementation builder : ClassSpec) (build : Function) :
    Prop where
  overrides : implementation.constructor.length = members.length
  fields : builder.properties.length = members.length
  functions : builder.functions.length = members.length + 1
  last : builder.functions.getLast? = some build
  arguments : build.body.arguments.length = members.length
  parts : ∀ (i : Nat) (member : Member), members[i]? = some member →
    ∃ override field setter argument,
      implementation.constructor[i]? = some override ∧ builder.properties[i]? = some field ∧
        builder.functions[i]? = some setter ∧ build.body.arguments[i]? = some argument ∧
        member.Parts override field setter argument

namespace PropertyGroup
variable (group : PropertyGroup)

theorem setter_sets (member : Member) :
    (group.setter member).Sets (.named group.builder) member where
  isAbstract := group.setter_isAbstract member
  name := group.setter_name member
  parameter := by
    cases member with
    | flat p => exact ⟨_, rfl, rfl, rfl⟩
    | delegate d => exact ⟨_, rfl, rfl, rfl⟩
  returns := group.setter_returns member

theorem overload_of_not_color {member : Member} (h : member.isColor = false) :
    group.overload member = [] := by
  cases member with
  | delegate d => rfl
  | flat p =>
    have hc : p.category ≠ .color := by simpa [Member.isColor] using h
    rw [overload, if_neg hc]

theorem overload_of_color {member : Member} (h : member.isColor = true) :
    ∃ f, group.overload member = [f] ∧ f.Overloads (group.setter member) := by
  cases member with
  | delegate d => simp [Member.isColor] at h
  | flat p =>
    have hc : p.category = .color := by simpa [Member.isColor] using h
    rw [overload, if_pos hc]
    exact ⟨_, rfl, rfl, ⟨_, rfl, rfl, rfl, rfl⟩, rfl⟩

/-- The interface declares what the members ask for and nothing else. -/
theorem declares_contract :
    Declares (.named group.builder) (.named group.result) group.members
      group.contract.functions := by
  rw [contract, setters]
  induction group.members with
  | nil => exact .build ⟨rfl, rfl, rfl, rfl⟩
  | cons member rest ih =>
    rw [List.flatMap_cons, List.append_assoc, List.cons_append]
    cases hc : member.isColor with
    | false =>
      rw [group.overload_of_not_color hc, List.nil_append]
      exact .setter hc (group.setter_sets member) ih
    | true =>
      obtain ⟨f, hf, ho⟩ := group.overload_of_color hc
      rw [hf]
      exact .colorSetter hc (group.setter_sets member) ho ih

theorem filter_isAbstract_contract :
    group.contract.functions.filter Function.isAbstract = group.members.map group.setter ++
      [{ group.buildFunction with doc := some ("Returns [" ++ group.result ++ "]") }] := by
  rw [contract, List.filter_append, filter_isAbstract_setters]
  rfl

theorem implements_implementation {f : Function} {body : Body} (h : body ≠ .abstract) :
    (f.implementation body).Implements f :=
  ⟨rfl, rfl, rfl, rfl, rfl, by simpa [Function.isAbstract] using h⟩

theorem setterBody_ne_abstract (member : Member) : member.setterBody ≠ .abstract := by
  cases member <;> simp [Member.setterBody]

/-- The nested builder overrides, in their order, the functions that its interface leaves open. -/
theorem nestedBuilder_implements_each :
    List.Forall₂ Function.Implements group.nestedBuilder.functions
      (group.contract.functions.filter Function.isAbstract) := by
  rw [nestedBuilder_functions, filter_isAbstract_contract]
  refine List.rel_append ?_ (.cons ?_ .nil)
  · rw [List.forall₂_map_left_iff, List.forall₂_map_right_iff, List.forall₂_same]
    intro member _
    exact implements_implementation (setterBody_ne_abstract member)
  · refine ⟨rfl, rfl, rfl, rfl, rfl, group.buildBody_not_abstract⟩

theorem arguments_buildBody :
    group.buildBody.arguments = group.members.map Member.argument := by
  by_cases h : group.members = []
  · rw [group.buildBody_eq_singleton h, h]
    rfl
  · rw [group.buildBody_eq_construct h]
    rfl

/-- The parts of a member, each as it is generated for it, fit one another. -/
theorem parts_of_member (member : Member) :
    member.Parts { name := member.name, type := member.type, overrides := true } member.field
      ((group.setter member).implementation member.setterBody) member.argument := by
  cases member with
  | flat p => exact ⟨rfl, rfl, rfl, rfl, rfl, rfl, rfl, rfl, rfl, ⟨_, rfl, rfl, rfl⟩, rfl⟩
  | delegate d => exact ⟨rfl, rfl, rfl, rfl, rfl, rfl, rfl, rfl, rfl, ⟨_, rfl, rfl, rfl⟩, rfl⟩

theorem aligned :
    Aligned group.members group.defaultImplementation group.nestedBuilder
      (group.buildFunction.implementation group.buildBody) where
  overrides := List.length_map _
  fields := List.length_map _
  functions := by simp [nestedBuilder_functions]
  last := by simp [nestedBuilder_functions]
  arguments := by
    rw [Function.implementation_body, arguments_buildBody, List.length_map]
  parts := by
    intro i member hi
    have hlt : i < group.members.length := (List.getElem?_eq_some_iff.mp hi).1
    refine ⟨_, _, _, _, ?_, ?_, ?_, ?_, group.parts_of_member member⟩
    · rw [defaultImplementation, List.getElem?_map, hi]
      rfl
    · rw [nestedBuilder, List.getElem?_map, hi]
      rfl
    · rw [nestedBuilder_functions, List.getElem?_append_left (by simpa using hlt),
        List.getElem?_map, hi]
      rfl
    · rw [Function.implementation_body, arguments_buildBody, List.getElem?_map, hi]
      rfl

end PropertyGroup

/-- A builder's interface for a group, and an implementation of the group's result with the builder
nested in it and the function that ends that builder's work. -/
structure Conforms (group : PropertyGroup) (contract : InterfaceSpec)
    (implementation builder : ClassSpec) (build : Function) : Prop where
  names : contract.name = group.builder ∧ implementation.name = group.defaultImpl
  declares :
    Declares (.named group.builder) (.named group.result) group.members contract.functions
  supertypes : implementation.supertypes = [group.result] ∧ builder.supertypes = [contract.name]
  nested : implementation.nested = [builder]
  implements : List.Forall₂ Function.Implements builder.functions
    (contract.functions.filter Function.isAbstract)
  aligned : Aligned group.members implementation builder build
  /-- Without members there is one instance of the result, which the builder hands out. -/
  empty_iff : implementation.kind = .dataObject ∧ build.body = .singleton implementation.name ↔
    group.members = []
  /-- With members the builder makes an instance from its arguments. -/
  nonempty_iff : implementation.kind = .data ∧
    build.body = .construct implementation.name build.body.arguments ↔ group.members ≠ []

namespace PropertyGroup

/-- The default implementation of any group conforms to the interface of the group's builder,
whatever its members are and whether or not they share names. -/
theorem defaultImplementation_conforms (group : PropertyGroup) :
    ∃ builder build, Conforms group group.contract group.defaultImplementation builder build := by
  refine ⟨group.nestedBuilder, group.buildFunction.implementation group.buildBody, ⟨rfl, rfl⟩,
    group.declares_contract, ⟨rfl, rfl⟩, rfl, group.nestedBuilder_implements_each, group.aligned,
    ?_, ?_⟩
  · by_cases hm : group.members = []
    · simp [defaultImplementation, buildBody, hm]
    · simp [defaultImplementation, hm]
  · by_cases hm : group.members = []
    · simp [defaultImplementation, hm]
    · simp [defaultImplementation, buildBody, Body.arguments, hm]

/-- Two properties of one name, of which one is a color, with a delegate between them. -/
def sharedNamesGroup : PropertyGroup where
  result := "ChipStyle"
  builder := "ChipStyleBuilder"
  defaultImpl := "DefaultChipStyle"
  builderDoc := "Component style builder"
  members :=
    [.flat ⟨"tint", .color⟩, .delegate ⟨"colors", "ChipColors", "ChipColorsBuilder", ""⟩,
      .flat ⟨"tint", .shape⟩]

example : sharedNamesGroup.contract.functions.map (·.name) =
    ["tint", "tint", "colors", "tint", "build"] := by decide

example : sharedNamesGroup.nestedBuilder.functions.map (·.body) =
    [.assignField "tint" "tint", .configure "colorsBuilder" "configure", .assignField "tint" "tint",
      .construct "DefaultChipStyle" (sharedNamesGroup.members.map Member.argument)] := by decide

end PropertyGroup
end StyleFamily
