import StyleFamily.Layout
import StyleFamily.Text

/-!
# Kotlin declarations

The Kotlin declarations a unit is made of, already spelled in their parts, and the fragments each
of them lays out as.
-/
namespace StyleFamily.Kotlin

/-- What follows a declared name: its supertypes, if it has any. -/
def supertypeClause (supertypes : List String) : String :=
  if supertypes.isEmpty then "" else " : " ++ ", ".intercalate supertypes

structure PropertyNode where
  name : String
  type : String
  doc : Option String := none
  isPrivate : Bool := false
  overrides : Bool := false
  isMutable : Bool := false
  initializer : Option String := none

namespace PropertyNode

def signature (p : PropertyNode) : String :=
  (if p.isPrivate then "private " else "") ++ (if p.overrides then "override " else "") ++
    (if p.isMutable then "var " else "val ") ++ p.name ++ ": " ++ p.type ++
    (match p.initializer with | some expression => " = " ++ expression | none => "")

def fragments (p : PropertyNode) : List Fragment := Fragment.docs p.doc ++ [.line p.signature]

end PropertyNode

structure ParameterNode where
  name : String
  type : String
  default : Option String := none

def ParameterNode.text (p : ParameterNode) : String :=
  p.name ++ ": " ++ p.type ++
    (match p.default with | some expression => " = " ++ expression | none => "")

inductive BodyNode
  | none
  | expression (text : String)
  /-- A call with one named argument a line. -/
  | call (callee : String) (arguments : List (String × String))

structure FunctionNode where
  name : String
  returns : String
  doc : Option String := .none
  parameters : List ParameterNode := []
  overrides : Bool := false
  body : BodyNode := .none

namespace FunctionNode

def signature (f : FunctionNode) : String :=
  (if f.overrides then "override " else "") ++ "fun " ++ f.name ++ "(" ++
    ", ".intercalate (f.parameters.map ParameterNode.text) ++ "): " ++ f.returns

def fragments (f : FunctionNode) : List Fragment :=
  Fragment.docs f.doc ++ [match f.body with
    | .none => .line f.signature
    | .expression text => .line (f.signature ++ " = " ++ text)
    | .call callee arguments =>
      .block (f.signature ++ " = " ++ callee ++ "(")
        (arguments.map fun (name, value) => .line (name ++ " = " ++ value ++ ",")) ")"]

end FunctionNode

inductive ClassFlavor
  | plain
  | data
  | dataObject
deriving DecidableEq

def ClassFlavor.keyword : ClassFlavor → String
  | .plain => "class"
  | .data => "data class"
  | .dataObject => "data object"

structure ClassNode where
  name : String
  flavor : ClassFlavor := .plain
  doc : Option String := none
  isPrivate : Bool := false
  constructor : List PropertyNode := []
  supertypes : List String := []
  properties : List PropertyNode := []
  functions : List FunctionNode := []
  nested : List ClassNode := []

namespace ClassNode

/-- Keyword and name. -/
def heading (name : String) (flavor : ClassFlavor) (isPrivate : Bool) : String :=
  (if isPrivate then "private " else "") ++ flavor.keyword ++ " " ++ name

/-- A header with a body after it, if the body has anything in it. -/
def withBody (header : String) (body : List Fragment) : Fragment :=
  if body.isEmpty then .line header else .braced (header ++ " \x7b") body

/-- A header, after the constructor's properties if there are any, and the body. -/
def layout (doc : Option String) (heading : String) (constructor : List PropertyNode)
    (supertypes : List String) (body : List Fragment) : List Fragment :=
  Fragment.docs doc ++
    if constructor.isEmpty then [withBody (heading ++ supertypeClause supertypes) body]
    else
      [.line (heading ++ "("), .nested (constructor.map fun p => .line (p.signature ++ ",")),
        withBody (")" ++ supertypeClause supertypes) body]

mutual
/-- The fields together, then each function and each nested class on its own. -/
def fragments : ClassNode → List Fragment
  | ⟨name, flavor, doc, isPrivate, constructor, supertypes, properties, functions, nested⟩ =>
    layout doc (heading name flavor isPrivate) constructor supertypes
      (Fragment.separated
        (properties.flatMap PropertyNode.fragments :: functions.map FunctionNode.fragments ++
          groups nested))

def groups : List ClassNode → List (List Fragment)
  | [] => []
  | node :: rest => fragments node :: groups rest
end

end ClassNode

structure InterfaceNode where
  name : String
  doc : Option String := none
  annotations : List String := []
  supertypes : List String := []
  properties : List PropertyNode := []
  functions : List FunctionNode := []
  companion : Option (List FunctionNode) := none

/-- Every member on its own, the companion last. -/
def InterfaceNode.fragments (i : InterfaceNode) : List Fragment :=
  let companion := i.companion.toList.map fun functions =>
    [Fragment.braced "companion object \x7b"
      (Fragment.separated (functions.map FunctionNode.fragments))]
  Fragment.docs i.doc ++ i.annotations.map (fun a => .line ("@" ++ a)) ++
    [.braced ("interface " ++ i.name ++ supertypeClause i.supertypes ++ " \x7b")
      (Fragment.separated (i.properties.map PropertyNode.fragments ++
        i.functions.map FunctionNode.fragments ++ companion))]

/-- A value that is provided through the composition, with a default. -/
structure LocalNode where
  name : String
  type : String
  default : String
  doc : Option String := none

def LocalNode.fragments (l : LocalNode) : List Fragment :=
  Fragment.docs l.doc ++
    [.line ("val " ++ l.name ++ ": ProvidableCompositionLocal<" ++ l.type ++ "> ="),
      .nested [.line ("compositionLocalOf(structuralEqualityPolicy()) \x7b " ++ l.default ++
        " \x7d")]]

/-- A file: header, package, imports and declarations. -/
structure FileNode where
  header : List String := []
  package : String
  imports : List String := []
  declarations : List (List Fragment) := []

/-- The sections of a file, each after a blank line; the default package has no line. -/
def FileNode.text (file : FileNode) : String :=
  let package := if file.package = "" then [] else [Fragment.line ("package " ++ file.package)]
  Fragment.textOf (Fragment.separated
    ([file.header.map .line, package, file.imports.map .line] ++ file.declarations))

end StyleFamily.Kotlin
