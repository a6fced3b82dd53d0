import StyleFamily.Family.Pattern

/-!
# Assembly of a style family

A component's family has three triads: the style, its colors and its dimensions. A triad is an
interface, the interface of its builder and a default implementation. The style holds its flat
properties and delegates to the builders of the two other triads.
-/
namespace StyleFamily

inductive TriadKind
  | style
  | colors
  | dimensions
deriving DecidableEq

/-- An interface, its builder's interface and its default implementation. -/
structure Triad where
  kind : TriadKind
  contract : InterfaceSpec
  builder : InterfaceSpec
  defaultImpl : ClassSpec

def Triad.declarations (triad : Triad) : List Declaration :=
  [.ofInterface triad.contract, .ofInterface triad.builder, .ofClass triad.defaultImpl]

/-- All that is generated for a component. -/
structure Artifacts where
  names : StyleNames
  accessor : AccessorSpec
  style : Triad
  colors : Triad
  dimensions : Triad

namespace Artifacts

/-- The nine declarations in the order they are emitted. -/
def declarations (artifacts : Artifacts) : List Declaration :=
  artifacts.style.declarations ++ artifacts.colors.declarations ++ artifacts.dimensions.declarations

end Artifacts

def styleDoc : String := "Component style"
def colorsDoc : String := "Component colors"
def dimensionsDoc : String := "Component dimensions and paddings"

/-- The companion function that makes a builder. That of the style takes an optional receiver. -/
def builderFactory (kind : TriadKind) (group : PropertyGroup) : Function :=
  { name := MemberName.factory
    doc := some ("Returns an instance of [" ++ group.builder ++ "]")
    parameters :=
      if kind = .style then [({ name := "receiver", type := .any } : Parameter).nullable] else []
    returns := .named group.builder
    body := .instantiate [group.defaultImpl, MemberName.nestedBuilder] }

/-- The triad of a group. -/
def Triad.ofGroup (kind : TriadKind) (group : PropertyGroup) (doc : String) : Triad where
  kind
  contract :=
    { name := group.result
      doc := some doc
      immutable := true
      supertypes := if kind = .style then [.styleBase] else []
      properties := group.members.map fun member =>
        { name := member.name, type := member.type, doc := some member.doc }
      companion := some [builderFactory kind group] }
  builder := group.contract
  defaultImpl := group.defaultImplementation

def colorsGroup (schema : Schema) : PropertyGroup :=
  let names := StyleNames.ofBase schema.name
  { result := names.colors
    builder := names.colorsBuilder
    defaultImpl := names.defaultColors
    builderDoc := "Builder for [" ++ names.colors ++ "]"
    members := schema.colorProperties.map .flat }

def dimensionsGroup (schema : Schema) : PropertyGroup :=
  let names := StyleNames.ofBase schema.name
  { result := names.dimensions
    builder := names.dimensionsBuilder
    defaultImpl := names.defaultDimensions
    builderDoc := "Builder for [" ++ names.dimensions ++ "]"
    members := schema.dimensionProperties.map .flat }

def styleGroup (schema : Schema) : PropertyGroup :=
  let names := StyleNames.ofBase schema.name
  { result := names.style
    builder := names.styleBuilder
    defaultImpl := names.defaultStyle
    builderDoc := styleDoc ++ " builder"
    members := schema.styleProperties.map .flat ++
      [.delegate ⟨MemberName.colors, names.colors, names.colorsBuilder, colorsDoc⟩,
        .delegate ⟨MemberName.dimensions, names.dimensions, names.dimensionsBuilder,
          dimensionsDoc⟩] }

/-- The family of a component. -/
def assemble (schema : Schema) : Artifacts :=
  let names := StyleNames.ofBase schema.name
  { names
    accessor :=
      { name := names.accessor
        doc := some ("Provides the current [" ++ names.style ++
          "], computed once from an unconfigured builder by default")
        style := names.style }
    style := .ofGroup .style (styleGroup schema) styleDoc
    colors := .ofGroup .colors (colorsGroup schema) colorsDoc
    dimensions := .ofGroup .dimensions (dimensionsGroup schema) dimensionsDoc }

end StyleFamily
