import StyleFamily.Decl.Declaration
import StyleFamily.Family.Names
import StyleFamily.Kotlin.Naming
import StyleFamily.Kotlin.Node
import StyleFamily.Kotlin.Spelling

/-!
# Declarations in Kotlin

How each declaration of a family is spelled in Kotlin, and beside it the symbols that the spelling
needs. Names of members go through the naming convention; names of types are taken as they are.
-/
namespace StyleFamily.Kotlin

/-- A member's name as Kotlin accepts it. -/
def safe (name : String) : String := naming.safe name

def immutable : Symbol := ⟨composeRuntime, "Immutable"⟩

def spellInitializer : Initializer → String
  | .null => "null"
  | .newBuilder contract => contract ++ "." ++ MemberName.factory ++ "()"

def propertyNode (p : PropertySpec) : PropertyNode where
  name := safe p.name
  type := spellType p.type
  doc := p.doc
  isPrivate := p.isPrivate
  overrides := p.overrides
  isMutable := p.isMutable
  initializer := p.initializer.map spellInitializer

def propertySymbols (p : PropertySpec) : List Symbol := typeSymbols p.type

def parameterNode (p : Parameter) : ParameterNode where
  name := safe p.name
  type := spellType p.type
  default := if p.defaultsToNull then some "null" else none

/-- An argument's name and expression. -/
def spellArgument : Argument → String × String
  | .resolve property field _ fallback =>
    (safe property, safe field ++ " ?: " ++ spellValue fallback)
  | .buildDelegate property builderField =>
    (safe property, safe builderField ++ "." ++ MemberName.build ++ "()")

def argumentSymbols : Argument → List Symbol
  | .resolve _ _ _ fallback => valueSymbols fallback
  | .buildDelegate _ _ => []

def bodyNode : Body → BodyNode
  | .abstract => .none
  | .assignField field parameter =>
    .expression ("apply \x7b this." ++ safe field ++ " = " ++ safe parameter ++ " \x7d")
  | .promote target parameter =>
    .expression (safe target ++ "(" ++ safe parameter ++ "." ++ asInteractive.name ++ "())")
  | .configure builderField callback =>
    .expression ("apply \x7b " ++ safe builderField ++ "." ++ safe callback ++ "() \x7d")
  | .instantiate path => .expression (".".intercalate path ++ "()")
  | .construct className arguments => .call className (arguments.map spellArgument)
  | .singleton object => .expression object

def bodySymbols : Body → List Symbol
  | .promote _ _ => [asInteractive]
  | .construct _ arguments => arguments.flatMap argumentSymbols
  | _ => []

def functionNode (f : Function) : FunctionNode where
  name := safe f.name
  returns := spellType f.returns
  doc := f.doc
  parameters := f.parameters.map parameterNode
  overrides := f.overrides
  body := bodyNode f.body

def functionSymbols (f : Function) : List Symbol :=
  typeSymbols f.returns ++ f.parameters.flatMap (typeSymbols ·.type) ++ bodySymbols f.body

def interfaceNode (i : InterfaceSpec) : InterfaceNode where
  name := i.name
  doc := i.doc
  annotations := if i.immutable then [immutable.name] else []
  supertypes := i.supertypes.map spellType
  properties := i.properties.map propertyNode
  functions := i.functions.map functionNode
  companion := i.companion.map (·.map functionNode)

def interfaceSymbols (i : InterfaceSpec) : List Symbol :=
  (if i.immutable then [immutable] else []) ++ i.supertypes.flatMap typeSymbols ++
    i.properties.flatMap propertySymbols ++ i.functions.flatMap functionSymbols ++
    (i.companion.getD []).flatMap functionSymbols

def flavorOf : ClassKind → ClassFlavor
  | .plain => .plain
  | .data => .data
  | .dataObject => .dataObject

mutual
def classNode : ClassSpec → ClassNode
  | ⟨name, doc, isPrivate, kind, supertypes, constructor, properties, functions, nested⟩ =>
    { name, doc, isPrivate, supertypes
      flavor := flavorOf kind
      constructor := constructor.map propertyNode
      properties := properties.map propertyNode
      functions := functions.map functionNode
      nested := classNodes nested }

def classNodes : List ClassSpec → List ClassNode
  | [] => []
  | spec :: rest => classNode spec :: classNodes rest
end

mutual
def classSymbols : ClassSpec → List Symbol
  | ⟨_, _, _, _, _, constructor, properties, functions, nested⟩ =>
    constructor.flatMap propertySymbols ++ properties.flatMap propertySymbols ++
      functions.flatMap functionSymbols ++ classesSymbols nested

def classesSymbols : List ClassSpec → List Symbol
  | [] => []
  | spec :: rest => classSymbols spec ++ classesSymbols rest
end

/-- The accessor provides what an unconfigured builder of the style builds. -/
def accessorNode (a : AccessorSpec) : LocalNode where
  name := a.name
  type := a.style
  default := a.style ++ "." ++ MemberName.factory ++ "()." ++ MemberName.build ++ "()"
  doc := a.doc

def accessorSymbols : List Symbol :=
  [⟨composeRuntime, "ProvidableCompositionLocal"⟩, ⟨composeRuntime, "compositionLocalOf"⟩,
    ⟨composeRuntime, "structuralEqualityPolicy"⟩]

def declarationFragments : Declaration → List Fragment
  | .ofInterface spec => (interfaceNode spec).fragments
  | .ofClass spec => (classNode spec).fragments

def declarationSymbols : Declaration → List Symbol
  | .ofInterface spec => interfaceSymbols spec
  | .ofClass spec => classSymbols spec

end StyleFamily.Kotlin
