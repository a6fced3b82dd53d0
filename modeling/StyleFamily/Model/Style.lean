import StyleFamily.Model.Record

/-!
# Styles and their builders

The builder of a style: its own flat properties, and the builders of the colors and dimensions it
delegates to.
-/
namespace StyleFamily

/-- A built style. -/
structure Style where
  properties : Record
  colors : Record
  dimensions : Record

/-- Equality of styles, group by group. -/
def Style.same (a b : Style) : Bool :=
  a.properties.same b.properties && a.colors.same b.colors && a.dimensions.same b.dimensions

instance : BEq Style := ⟨Style.same⟩

structure StyleBuilder where
  style : RecordBuilder
  colors : RecordBuilder
  dimensions : RecordBuilder

namespace StyleBuilder

/-- The builder of a member, if the style builds that member as the triad's result. -/
def delegate (style : RecordBuilder) (member : String) (triad : Triad) :
    Except ModelError RecordBuilder :=
  match style.delegates.find? (·.property == member) with
  | none => .error (.notBuilt style.typeName member)
  | some found =>
    if found.contract = triad.contract.name then RecordBuilder.ofTriad triad
    else .error (.builtOtherwise style.typeName member found.contract triad.contract.name)

/-- The fresh builder of a family. -/
def ofArtifacts (artifacts : Artifacts) : Except ModelError StyleBuilder := do
  let style ← RecordBuilder.ofTriad artifacts.style
  let colors ← delegate style MemberName.colors artifacts.colors
  let dimensions ← delegate style MemberName.dimensions artifacts.dimensions
  return ⟨style, colors, dimensions⟩

/-- Sets a flat property of the style. -/
def set (builder : StyleBuilder) (name : String) (value : Value) : Except ModelError StyleBuilder :=
  return { builder with style := ← builder.style.set name value }

/-- Runs a callback once on the colors; what it did stays done, also where it stopped early. -/
def configureColors (builder : StyleBuilder) (callback : RecordBuilder → α × RecordBuilder) :
    α × StyleBuilder :=
  let (answer, colors) := callback builder.colors
  (answer, { builder with colors })

/-- Runs a callback once on the dimensions; what it did stays done, also where it stopped early. -/
def configureDimensions (builder : StyleBuilder) (callback : RecordBuilder → α × RecordBuilder) :
    α × StyleBuilder :=
  let (answer, dimensions) := callback builder.dimensions
  (answer, { builder with dimensions })

def build (builder : StyleBuilder) : Style where
  properties := builder.style.resolve
  colors := builder.colors.resolve
  dimensions := builder.dimensions.resolve

end StyleBuilder
end StyleFamily
