import StyleFamily.Manifest
import StyleFamily.Schema
import StyleFamily.Text.Identifier

/-!
# Scanning a manifest

The holder of a component's properties is the first declaration that lists the owner among its
supertypes. Every parameter goes to the first category whose marker its type contains; one without
any marker is passed over.
-/
namespace StyleFamily

namespace SourceParameter

/-- The categories whose markers stand in the type. -/
def categories (parameter : SourceParameter) : List Category := Category.ofType parameter.type

/-- The category the parameter goes to. -/
def category? (parameter : SourceParameter) : Option Category := parameter.categories.head?

/-- The remark on a parameter that does not have exactly one marker. -/
def note? (declaration : String) (p : SourceParameter) : Option ScanNote :=
  let location := some (declaration ++ ".param." ++ p.name)
  match p.categories with
  | [] =>
    some ⟨"parameter '" ++ p.name ++ "' has type '" ++ p.type ++
      "' which matches no category, skipped", location⟩
  | [_] => none
  | first :: others =>
    some ⟨"type '" ++ p.type ++ "' of parameter '" ++ p.name ++
      "' matches several categories, classified as " ++ first.text ++ " over " ++
      ", ".intercalate (others.map Category.text), location⟩

end SourceParameter

namespace SourceDeclaration

/-- The parameters by category, in their order. -/
def properties (declaration : SourceDeclaration) : Properties :=
  .ofFunction fun category =>
    (declaration.parameters.filter (·.category? == some category)).map (·.name)

def notes (declaration : SourceDeclaration) : List ScanNote :=
  declaration.parameters.filterMap (·.note? declaration.name)

end SourceDeclaration

namespace Manifest

/-- The declaration that holds the properties. -/
def holder? (manifest : Manifest) : Option SourceDeclaration :=
  manifest.declarations.find? (·.extends (Text.trim manifest.scanner.owner))

/-- What looking through the declarations comes to. -/
def scan (manifest : Manifest) : ScanOutcome :=
  match manifest.holder? with
  | none => .noHolder
  | some holder =>
    match baseName? holder.name manifest.scanner.suffix with
    | none => .underivableName holder.name manifest.scanner.suffix
    | some name => .found ⟨name, holder.properties⟩ holder.notes

end Manifest
end StyleFamily
