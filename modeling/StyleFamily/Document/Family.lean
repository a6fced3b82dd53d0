import StyleFamily.Document.Values
import StyleFamily.Family.Assembly

/-!
# Families as documents

How the declarations of a family are written in a document.
-/
namespace StyleFamily

open Document

def TypeRef.document : TypeRef → Document
  | .value type => .object [("value", type.document)]
  | .named name => .object [("named", .string name)]
  | .optional inner => .object [("optional", inner.document)]
  | .callback returns => .object [("lambda", .object [("receiver", .null),
      ("returns", returns.document)])]
  | .callbackOn receiver returns => .object [("lambda", .object [("receiver", receiver.document),
      ("returns", returns.document)])]
  | .styleBase => .string "style_base"
  | .any => .string "any"
  | .unit => .string "unit"

def text? (value : Option String) : Document := optional value .string

def visibility (isPrivate : Bool) : Document := .string (if isPrivate then "private" else "public")

def Parameter.document (p : Parameter) : Document :=
  .object [("name", .string p.name), ("ty", p.type.document),
    ("defaults_to_null", .bool p.defaultsToNull)]

def Argument.document : Argument → Document
  | .resolve property field category fallback =>
    .object [("kind", .string "resolve"), ("property", .string property), ("field", .string field),
      ("category", category.document), ("default", fallback.document)]
  | .buildDelegate property builderField =>
    .object [("kind", .string "build_delegate"), ("property", .string property),
      ("builder_field", .string builderField)]

def Body.document : Body → Document
  | .abstract => .object [("kind", .string "abstract")]
  | .assignField field parameter =>
    .object [("kind", .string "assign_field"), ("field", .string field),
      ("param", .string parameter)]
  | .promote target parameter =>
    .object [("kind", .string "convert"), ("target", .string target), ("param", .string parameter),
      ("conversion", .string "interactive")]
  | .configure builderField callback =>
    .object [("kind", .string "configure"), ("builder_field", .string builderField),
      ("callback", .string callback)]
  | .instantiate path => .object [("kind", .string "instantiate"), ("path", strings path)]
  | .construct className arguments =>
    .object [("kind", .string "construct"), ("class", .string className),
      ("args", .array (arguments.map Argument.document))]
  | .singleton only =>
    .object [("kind", .string "singleton"), ("object", .string only)]

def Function.document (f : Function) : Document :=
  .object [("name", .string f.name), ("doc", text? f.doc),
    ("params", .array (f.parameters.map Parameter.document)), ("returns", f.returns.document),
    ("is_override", .bool f.overrides), ("body", f.body.document)]

def Initializer.document : Initializer → Document
  | .null => .object [("kind", .string "null")]
  | .newBuilder contract =>
    .object [("kind", .string "new_builder"), ("contract", .string contract)]

def PropertySpec.document (p : PropertySpec) : Document :=
  .object [("name", .string p.name), ("ty", p.type.document), ("doc", text? p.doc),
    ("visibility", visibility p.isPrivate), ("mutable", .bool p.isMutable),
    ("is_override", .bool p.overrides), ("initializer", optional p.initializer (·.document))]

def InterfaceSpec.document (i : InterfaceSpec) : Document :=
  .object [("name", .string i.name), ("doc", text? i.doc), ("immutable", .bool i.immutable),
    ("supertypes", .array (i.supertypes.map TypeRef.document)),
    ("properties", .array (i.properties.map PropertySpec.document)),
    ("functions", .array (i.functions.map Function.document)),
    ("companion", optional i.companion fun functions =>
      .object [("functions", .array (functions.map Function.document))])]

def ClassKind.document : ClassKind → Document
  | .plain => .string "plain"
  | .data => .string "data"
  | .dataObject => .string "data_object"

mutual
def ClassSpec.document : ClassSpec → Document
  | ⟨name, doc, isPrivate, kind, supertypes, constructor, properties, functions, nested⟩ =>
    .object [("name", .string name), ("doc", text? doc), ("visibility", visibility isPrivate),
      ("kind", kind.document), ("supertypes", strings supertypes),
      ("constructor", .array (constructor.map PropertySpec.document)),
      ("properties", .array (properties.map PropertySpec.document)),
      ("functions", .array (functions.map Function.document)),
      ("nested", .array (classDocuments nested))]

def classDocuments : List ClassSpec → List Document
  | [] => []
  | spec :: rest => spec.document :: classDocuments rest
end

def AccessorSpec.document (a : AccessorSpec) : Document :=
  .object [("name", .string a.name), ("doc", text? a.doc), ("style", .string a.style)]

def StyleNames.document (n : StyleNames) : Document :=
  .object [("base", .string n.base), ("style", .string n.style),
    ("style_builder", .string n.styleBuilder), ("default_style", .string n.defaultStyle),
    ("colors", .string n.colors), ("colors_builder", .string n.colorsBuilder),
    ("default_colors", .string n.defaultColors), ("dimensions", .string n.dimensions),
    ("dimensions_builder", .string n.dimensionsBuilder),
    ("default_dimensions", .string n.defaultDimensions), ("accessor", .string n.accessor)]

def TriadKind.document : TriadKind → Document
  | .style => .string "style"
  | .colors => .string "colors"
  | .dimensions => .string "dimensions"

def Triad.document (t : Triad) : Document :=
  .object [("kind", t.kind.document), ("contract", t.contract.document),
    ("builder", t.builder.document), ("default_impl", t.defaultImpl.document)]

def Artifacts.document (a : Artifacts) : Document :=
  .object [("names", a.names.document), ("accessor", a.accessor.document),
    ("style", a.style.document), ("colors", a.colors.document),
    ("dimensions", a.dimensions.document)]

def Member.document : Member → Document
  | .flat p =>
    .object [("kind", .string "flat"), ("name", .string p.name), ("category", p.category.document)]
  | .delegate d =>
    .object [("kind", .string "delegate"), ("member", .string d.member),
      ("contract", .string d.contract), ("builder", .string d.builder), ("doc", .string d.doc)]

end StyleFamily
