import StyleFamily.Files.Path
import StyleFamily.Text

/-!
# Manifests

A manifest says where generated units go, how the declaration that holds a component's properties
is recognised, and which declarations there are to look through.
-/
namespace StyleFamily

structure OutputSettings where
  package : String := "com.sdds.compose.uikit"
  /-- Relative to the directory of the manifest, unless it is absolute. -/
  directory : Path := ⟨"sdds-core/uikit-compose/src/main/kotlin"⟩
deriving DecidableEq

structure ScannerSettings where
  /-- The supertype that marks a holder of properties. -/
  owner : String := "PropertyOwner"
  /-- What is taken off the holder's name to get the component's. -/
  suffix : String := "Properties"
deriving DecidableEq

structure SourceParameter where
  name : String
  /-- The type as it is written. -/
  type : String
deriving DecidableEq

/-- A declared type with the parameters of its constructor. -/
structure SourceDeclaration where
  name : String
  supertypes : List String := []
  parameters : List SourceParameter := []
deriving DecidableEq

/-- Whether a supertype is listed, apart from blanks around it. -/
def SourceDeclaration.extends (declaration : SourceDeclaration) (supertype : String) : Bool :=
  declaration.supertypes.any (Text.trim · == supertype)

structure Manifest where
  output : OutputSettings := {}
  scanner : ScannerSettings := {}
  declarations : List SourceDeclaration := []
deriving DecidableEq

end StyleFamily
