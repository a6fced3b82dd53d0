import StyleFamily.Decl.Declaration
import StyleFamily.Family.Names
import StyleFamily.Schema

/-!
# The builder pattern

For a group of members with a result type: the interface of its builder, and the private default
implementation of the result with a nested class that builds it.
-/
namespace StyleFamily

/-- A member whose value another family's builder builds. -/
structure Delegate where
  member : String
  contract : String
  builder : String
  doc : String
deriving DecidableEq

/-- A member of a group: a property of its own, or one built elsewhere. -/
inductive Member
  | flat (property : Property)
  | delegate (delegate : Delegate)
deriving DecidableEq

namespace Member

def name : Member → String
  | flat p => p.name
  | delegate d => d.member

/-- The type of the member in the result. -/
def type : Member → TypeRef
  | flat p => .value p.category.valueType
  | delegate d => .named d.contract

def doc : Member → String
  | flat p => p.category.description
  | delegate d => d.doc

/-- The field of the nested builder that holds the member while it is being built. -/
def field : Member → PropertySpec
  | flat p =>
    { name := p.name, type := .optional (.value p.category.valueType), isPrivate := true
      isMutable := true, initializer := some .null }
  | delegate d =>
    { name := MemberName.builderField d.member, type := .named d.builder, isPrivate := true
      initializer := some (.newBuilder d.contract) }

/-- What the setter of the member does. -/
def setterBody : Member → Body
  | flat p => .assignField p.name p.name
  | delegate d => .configure (MemberName.builderField d.member) MemberName.configure

/-- The argument that hands the member to the result. -/
def argument : Member → Argument
  | flat p => .resolve p.name p.name p.category p.category.defaultValue
  | delegate d => .buildDelegate d.member (MemberName.builderField d.member)

end Member

/-- Members with one result type, and the names of what is generated for them. -/
structure PropertyGroup where
  result : String
  builder : String
  defaultImpl : String
  builderDoc : String
  members : List Member
deriving DecidableEq

namespace PropertyGroup

/-- The abstract setter of a member. -/
def setter (group : PropertyGroup) : Member → Function
  | .flat p =>
    { name := p.name, doc := some ("Sets [" ++ p.name ++ "]"), returns := .named group.builder
      parameters := [⟨p.name, .value p.category.valueType, false⟩] }
  | .delegate d =>
    { name := d.member, doc := some ("Configures [" ++ group.result ++ "." ++ d.member ++ "]")
      returns := .named group.builder
      parameters := [⟨MemberName.configure, .configure (.named d.builder), false⟩] }

/-- The second setter of a color property, which takes a plain color. -/
def overload (group : PropertyGroup) : Member → List Function
  | .flat p =>
    if p.category = .color then
      [{ name := p.name, doc := some ("Sets [" ++ p.name ++ "] from a plain color")
         returns := .named group.builder
         parameters := [⟨p.name, .value .color, false⟩]
         body := .promote p.name p.name }]
    else []
  | .delegate _ => []

/-- The setters of all members, each directly followed by its overload. -/
def setters (group : PropertyGroup) : List Function :=
  group.members.flatMap fun member => group.setter member :: group.overload member

/-- The function that ends the work of the builder. -/
def buildFunction (group : PropertyGroup) : Function :=
  { name := MemberName.build, returns := .named group.result }

/-- The builder's interface. -/
def contract (group : PropertyGroup) : InterfaceSpec :=
  { name := group.builder
    doc := some group.builderDoc
    functions := group.setters ++
      [{ group.buildFunction with doc := some ("Returns [" ++ group.result ++ "]") }] }

/-- The abstract setters, each with the member it sets. -/
def abstractSetters (group : PropertyGroup) : List (Function × Member) :=
  (group.setters.filter Function.isAbstract).zip group.members

/-- What the nested builder builds: the only instance of an implementation without members, else
an instance made from one argument a member. -/
def buildBody (group : PropertyGroup) : Body :=
  if group.members.isEmpty then .singleton group.defaultImpl
  else .construct group.defaultImpl (group.members.map Member.argument)

/-- The class that implements the builder, inside the default implementation. -/
def nestedBuilder (group : PropertyGroup) : ClassSpec :=
  { name := MemberName.nestedBuilder
    kind := .plain
    supertypes := [group.builder]
    properties := group.members.map Member.field
    functions :=
      group.abstractSetters.map (fun (setter, member) => setter.implementation member.setterBody) ++
        [group.buildFunction.implementation group.buildBody] }

/-- The private implementation of the result. -/
def defaultImplementation (group : PropertyGroup) : ClassSpec :=
  { name := group.defaultImpl
    isPrivate := true
    kind := if group.members.isEmpty then .dataObject else .data
    supertypes := [group.result]
    constructor := group.members.map fun member =>
      { name := member.name, type := member.type, overrides := true }
    nested := [group.nestedBuilder] }

end PropertyGroup
end StyleFamily
