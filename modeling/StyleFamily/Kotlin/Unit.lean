import StyleFamily.Family.Assembly
import StyleFamily.Files.Sink
import StyleFamily.Kotlin.Renderer

/-!
# Kotlin units

The source file of a family: header, package, imports, the accessor and the nine declarations.
-/
namespace StyleFamily.Kotlin

def language : String := "kotlin"
def fileExtension : String := "kt"

def generatedHeader : String := "// Code generated by stylegen. DO NOT EDIT."

/-- The symbols a unit asks for, declaration by declaration. -/
def unitSymbols (artifacts : Artifacts) : List Symbol :=
  accessorSymbols ++ artifacts.declarations.flatMap declarationSymbols

/-- The sections of the unit. -/
def unitFile (artifacts : Artifacts) (package : String) : FileNode where
  header := [generatedHeader]
  package
  imports := Imports.lines ⟨unitSymbols artifacts⟩ package
  declarations := (accessorNode artifacts.accessor).fragments ::
    artifacts.declarations.map declarationFragments

/-- The text of the unit. -/
def unitText (artifacts : Artifacts) (package : String) : String :=
  (unitFile artifacts package).text

end StyleFamily.Kotlin

namespace StyleFamily

/-- A language that families can be written in. -/
structure Language where
  name : String
  fileExtension : String
  text : Artifacts → String → String

/-- The source unit of a family in a package. -/
def Language.unit (language : Language) (artifacts : Artifacts) (package : String) :
    SourceUnit where
  name := artifacts.names.fileStem
  package
  extension := language.fileExtension
  content := language.text artifacts package

def Language.kotlin : Language := ⟨Kotlin.language, Kotlin.fileExtension, Kotlin.unitText⟩

end StyleFamily
