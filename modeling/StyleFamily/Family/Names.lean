/-!
# Names of a style family

The ten top-level names that a component name gives rise to, and the fixed names of members.
-/
namespace StyleFamily

namespace MemberName

/-- The class inside a default implementation that builds it. -/
def nestedBuilder : String := "Builder"
/-- The function that ends a builder's work. -/
def build : String := "build"
/-- The factory of builders in a contract's companion. -/
def factory : String := "builder"
def colors : String := "colors"
def dimensions : String := "dimensions"
/-- The parameter of a function that configures a sub-builder. -/
def configure : String := "configure"

/-- The field that holds the sub-builder of a member. -/
def builderField (member : String) : String := member ++ "Builder"

end MemberName

structure StyleNames where
  base : String
  style : String
  styleBuilder : String
  defaultStyle : String
  colors : String
  colorsBuilder : String
  defaultColors : String
  dimensions : String
  dimensionsBuilder : String
  defaultDimensions : String
  accessor : String
deriving DecidableEq

namespace StyleNames

/-- The names of a component's family. -/
def ofBase (base : String) : StyleNames where
  base
  style := base ++ "Style"
  styleBuilder := base ++ "StyleBuilder"
  defaultStyle := "Default" ++ base ++ "Style"
  colors := base ++ "Colors"
  colorsBuilder := base ++ "ColorsBuilder"
  defaultColors := "Default" ++ base ++ "Colors"
  dimensions := base ++ "Dimensions"
  dimensionsBuilder := base ++ "DimensionsBuilder"
  defaultDimensions := "Default" ++ base ++ "Dimensions"
  accessor := "Local" ++ base ++ "Style"

/-- The nine declarations in the order they are emitted. -/
def declarations (n : StyleNames) : List String :=
  [n.style, n.styleBuilder, n.defaultStyle, n.colors, n.colorsBuilder, n.defaultColors,
    n.dimensions, n.dimensionsBuilder, n.defaultDimensions]

/-- The file the family is written to, without its extension. -/
def fileStem (n : StyleNames) : String := n.style

end StyleNames
end StyleFamily
