import StyleFamily.Proofs.Family.Conformance
import StyleFamily.Proofs.Family.Resolution

/-!
# The inventory of an assembled family

Six lists of names are regrouped into three triads, and each name is written out several times over.
Every triad declares exactly the members of its group, in their order and at the same index
throughout, and each property appears under the category it was listed under and nowhere else. This
holds of any schema: names may be empty, repeated, or listed under several categories.
-/
namespace StyleFamily

/-- A triad that declares the given members in each of its parts. Beside them there are only the
overloads of colors, `build` and the companion's factory. -/
structure Triad.Lists (triad : Triad) (members : List Member) : Prop where
  declared : triad.contract.properties.map (fun p => (p.name, p.type)) =
    members.map fun member => (member.name, member.type)
  contract_functions : triad.contract.functions = []
  companion : ∃ factory, triad.contract.companion = some [factory] ∧ factory.name = "builder" ∧
    factory.returns = .named triad.builder.name
  setters : Declares (.named triad.builder.name) (.named triad.contract.name) members
    triad.builder.functions
  builder_properties : triad.builder.properties = []
  builder_companion : triad.builder.companion = none
  implementation : triad.defaultImpl.properties = [] ∧ triad.defaultImpl.functions = []
  nested : ∃ builder build, triad.defaultImpl.nested = [builder] ∧
    Aligned members triad.defaultImpl builder build ∧ build.name = "build" ∧
    builder.constructor = [] ∧ builder.nested = []

theorem Triad.ofGroup_lists (kind : TriadKind) (group : PropertyGroup) (doc : String) :
    (Triad.ofGroup kind group doc).Lists group.members where
  declared := by
    rw [Triad.ofGroup, List.map_map]
    rfl
  contract_functions := rfl
  companion := ⟨builderFactory kind group, rfl, rfl, rfl⟩
  setters := group.declares_contract
  builder_properties := rfl
  builder_companion := rfl
  implementation := ⟨rfl, rfl⟩
  nested := ⟨_, _, rfl, group.aligned, rfl, rfl, rfl⟩

/-- The members that the names listed under a category become. -/
def Schema.listed (schema : Schema) (category : Category) : List Member :=
  (schema.properties.names category).map fun name => .flat ⟨name, category⟩

theorem list_map_flat (schema : Schema) (categories : List Category) :
    (schema.properties.list categories).map Member.flat = categories.flatMap schema.listed := by
  simp only [Properties.list, List.map_flatMap, List.map_map]
  rfl

theorem styleGroup_listed (schema : Schema) :
    (styleGroup schema).members =
      schema.listed .typography ++ schema.listed .shape ++ schema.listed .shadow ++
        schema.listed .floatValue ++
        [.delegate ⟨"colors", schema.name ++ "Colors", schema.name ++ "ColorsBuilder",
            "Component colors"⟩,
          .delegate ⟨"dimensions", schema.name ++ "Dimensions", schema.name ++ "DimensionsBuilder",
            "Component dimensions and paddings"⟩] := by
  rw [styleGroup, Schema.styleProperties, list_map_flat]
  simp only [Category.styleOrder, List.flatMap_cons, List.flatMap_nil, List.append_nil,
    List.append_assoc]
  rfl

theorem colorsGroup_listed (schema : Schema) :
    (colorsGroup schema).members = schema.listed .color := by
  rw [colorsGroup, Schema.colorProperties, list_map_flat]
  exact List.append_nil _

theorem dimensionsGroup_listed (schema : Schema) :
    (dimensionsGroup schema).members = schema.listed .dimension := by
  rw [dimensionsGroup, Schema.dimensionProperties, list_map_flat]
  exact List.append_nil _

/-- A property with a value of its own, and not one that another triad declares. -/
def PropertySpec.isFlat (p : PropertySpec) : Bool :=
  match p.type with
  | .value _ => true
  | _ => false

def Member.isFlat : Member → Bool
  | .flat _ => true
  | .delegate _ => false

theorem countP_contract (kind : TriadKind) (group : PropertyGroup) (doc : String) :
    (Triad.ofGroup kind group doc).contract.properties.countP PropertySpec.isFlat =
      group.members.countP Member.isFlat := by
  rw [Triad.ofGroup, List.countP_map]
  apply List.countP_congr
  intro member _
  cases member <;> simp [PropertySpec.isFlat, Member.type, Member.isFlat]

theorem countP_listed (schema : Schema) (category : Category) :
    (schema.listed category).countP Member.isFlat = (schema.properties.names category).length := by
  rw [Schema.listed, List.countP_map]
  exact List.countP_eq_length.mpr fun _ _ => rfl

/-- The contracts of a family have one flat property for each name of the schema. -/
theorem countP_contracts (schema : Schema) :
    ((assemble schema).triads.flatMap (·.contract.properties)).countP PropertySpec.isFlat =
      schema.properties.size := by
  have hstyle := countP_contract .style (styleGroup schema) styleDoc
  have hcolors := countP_contract .colors (colorsGroup schema) colorsDoc
  have hdimensions := countP_contract .dimensions (dimensionsGroup schema) dimensionsDoc
  rw [styleGroup_listed] at hstyle
  rw [colorsGroup_listed, countP_listed] at hcolors
  rw [dimensionsGroup_listed, countP_listed] at hdimensions
  simp only [List.countP_append, countP_listed, List.countP_cons, List.countP_nil, Member.isFlat,
    Bool.false_eq_true, ↓reduceIte, Nat.add_zero] at hstyle
  simp only [Artifacts.triads, assemble, List.flatMap_cons, List.flatMap_nil, List.countP_append,
    List.countP_nil, hstyle, hcolors, hdimensions]
  simp only [Properties.size, Category.all, List.foldr_cons, List.foldr_nil]
  omega

/-- Assembling neither loses nor repeats, reorders or moves a property. -/
theorem assemble_lists_properties (schema : Schema) :
    (assemble schema).style.Lists
        (schema.listed .typography ++ schema.listed .shape ++ schema.listed .shadow ++
          schema.listed .floatValue ++
          [.delegate ⟨"colors", schema.name ++ "Colors", schema.name ++ "ColorsBuilder",
              "Component colors"⟩,
            .delegate ⟨"dimensions", schema.name ++ "Dimensions",
              schema.name ++ "DimensionsBuilder", "Component dimensions and paddings"⟩]) ∧
      (assemble schema).colors.Lists (schema.listed .color) ∧
      (assemble schema).dimensions.Lists (schema.listed .dimension) ∧
      ((assemble schema).triads.flatMap (·.contract.properties)).countP PropertySpec.isFlat =
        schema.properties.size := by
  refine ⟨?_, ?_, ?_, ?_⟩
  · rw [← styleGroup_listed]
    exact Triad.ofGroup_lists .style (styleGroup schema) styleDoc
  · rw [← colorsGroup_listed]
    exact Triad.ofGroup_lists .colors (colorsGroup schema) colorsDoc
  · rw [← dimensionsGroup_listed]
    exact Triad.ofGroup_lists .dimensions (dimensionsGroup schema) dimensionsDoc
  · exact countP_contracts schema

end StyleFamily
