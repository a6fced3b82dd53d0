import Mathlib.Data.List.Basic
import StyleFamily.Kotlin.Unit
import StyleFamily.Proofs.Family.Pattern
import StyleFamily.Proofs.Kotlin.ImportTable
import StyleFamily.Proofs.Lint.Acceptance
import StyleFamily.Proofs.Text.Characters

/-!
# The symbols a family asks for

Beside the few symbols that every unit needs, a unit asks for those of the categories that its
properties have: the type of a property and what its default is made of. The import lines are those
of the symbols that other packages hold.
-/
namespace StyleFamily

namespace Kotlin

/-- The base of every style. -/
def styleBase : Symbol := ⟨kitStyle, "Style"⟩

/-- The symbols of a unit without properties. -/
def fixedSymbols : List Symbol := accessorSymbols ++ [immutable, styleBase]

/-- The symbols of a category: the type of its properties and the parts of their default. -/
def categorySymbols (category : Category) : List Symbol :=
  typeSymbols (.value category.valueType) ++ valueSymbols category.defaultValue

/-- A delegate is built elsewhere and needs no symbols of its own. -/
def memberSymbols : Member → List Symbol
  | .flat p => categorySymbols p.category
  | .delegate _ => []

theorem flatMap_subset {items : List α} {f : α → List β} {all : List β}
    (h : ∀ item ∈ items, f item ⊆ all) : items.flatMap f ⊆ all := by
  intro b hb
  obtain ⟨item, hi, hb⟩ := List.mem_flatMap.mp hb
  exact h item hi hb

@[simp] theorem typeSymbols_named (name : String) : typeSymbols (.named name) = [] := rfl

@[simp] theorem typeSymbols_optional_value (type : ValueType) :
    typeSymbols (.optional (.value type)) = typeSymbols (.value type) := by
  simp [typeSymbols, TypeRef.valueTypes]

theorem typeSymbols_subset (member : Member) :
    typeSymbols member.type ⊆ memberSymbols member := by
  cases member with
  | flat p => exact List.subset_append_left _ _
  | delegate d => simp [Member.type, memberSymbols]

theorem fieldSymbols_subset (member : Member) :
    propertySymbols member.field ⊆ memberSymbols member := by
  cases member with
  | flat p =>
    simp only [propertySymbols, Member.field, typeSymbols_optional_value]
    exact List.subset_append_left _ _
  | delegate d => simp [propertySymbols, Member.field, memberSymbols]

theorem argumentSymbols_subset (member : Member) :
    argumentSymbols member.argument ⊆ memberSymbols member := by
  cases member with
  | flat p => exact List.subset_append_right _ _
  | delegate d => simp [Member.argument, argumentSymbols]

section
variable (group : PropertyGroup)

theorem setterSymbols_subset (member : Member) :
    functionSymbols (group.setter member) ⊆ memberSymbols member := by
  cases member with
  | flat p =>
    simp only [functionSymbols, PropertyGroup.setter, typeSymbols_named, bodySymbols,
      List.flatMap_singleton, List.nil_append, List.append_nil]
    exact List.subset_append_left _ _
  | delegate d =>
    simp [functionSymbols, PropertyGroup.setter, bodySymbols, typeSymbols, TypeRef.valueTypes,
      TypeRef.configure]

/-- A setter's body mentions fields and parameters only. -/
theorem implementationSymbols_subset (member : Member) :
    functionSymbols ((group.setter member).implementation member.setterBody) ⊆
      memberSymbols member := by
  have hbody : bodySymbols member.setterBody = bodySymbols (group.setter member).body := by
    cases member <;> rfl
  rw [functionSymbols, Function.implementation_returns, Function.implementation_parameters,
    Function.implementation_body, hbody]
  exact setterSymbols_subset group member

/-- A plain color is promoted by what the default of a color is promoted by. -/
theorem overloadSymbols_subset {member : Member} {function : Function}
    (h : function ∈ group.overload member) : functionSymbols function ⊆ memberSymbols member := by
  obtain ⟨p, rfl, hc, _, hparameters, hreturns, hbody⟩ := group.mem_overload h
  have hcolor : typeSymbols (.value .color) ++ [asInteractive] ⊆ categorySymbols .color := by
    decide
  rw [functionSymbols, hparameters, hreturns, hbody, memberSymbols, hc]
  simpa [bodySymbols] using hcolor

/-- The symbols of all members. -/
def groupSymbols : List Symbol := group.members.flatMap memberSymbols

variable {group}

theorem memberSymbols_subset {member : Member} (hm : member ∈ group.members) :
    memberSymbols member ⊆ groupSymbols group :=
  fun _ hs => List.mem_flatMap.mpr ⟨member, hm, hs⟩

/-- What is made member by member asks for the symbols of members. -/
theorem map_subset_groupSymbols {make : Member → α} {symbols : α → List Symbol}
    (h : ∀ member, symbols (make member) ⊆ memberSymbols member) :
    (group.members.map make).flatMap symbols ⊆ groupSymbols group := by
  rw [List.flatMap_map]
  exact flatMap_subset fun member hm => List.Subset.trans (h member) (memberSymbols_subset hm)

variable (group)

theorem buildSymbols_subset :
    functionSymbols (group.buildFunction.implementation group.buildBody) ⊆ groupSymbols group := by
  simp only [functionSymbols, Function.implementation_returns, Function.implementation_parameters,
    Function.implementation_body, PropertyGroup.buildFunction, typeSymbols_named,
    List.flatMap_nil, List.nil_append, PropertyGroup.buildBody]
  split
  · simp [bodySymbols]
  · exact map_subset_groupSymbols argumentSymbols_subset

theorem contractSymbols_subset (kind : TriadKind) (doc : String) :
    interfaceSymbols (Triad.ofGroup kind group doc).contract ⊆
      fixedSymbols ++ groupSymbols group := by
  have hsupertypes : (if kind = .style then [TypeRef.styleBase] else []).flatMap typeSymbols ⊆
      [styleBase] := by
    split <;> decide
  have hfactory : functionSymbols (builderFactory kind group) = [] := by
    cases kind <;> rfl
  have hproperties : (group.members.map fun member => member.type).flatMap typeSymbols ⊆
      groupSymbols group := map_subset_groupSymbols typeSymbols_subset
  have hfixed : [immutable] ++ [styleBase] ⊆ fixedSymbols := by decide
  have hcontract : interfaceSymbols (Triad.ofGroup kind group doc).contract =
      [immutable] ++ (if kind = .style then [TypeRef.styleBase] else []).flatMap typeSymbols ++
        (group.members.map fun member => member.type).flatMap typeSymbols := by
    simp [interfaceSymbols, Triad.ofGroup, hfactory, List.flatMap_map, propertySymbols]
  rw [hcontract]
  refine List.append_subset.mpr ⟨List.append_subset.mpr ⟨?_, ?_⟩, ?_⟩
  · exact List.subset_append_of_subset_left _
      (List.Subset.trans (List.subset_append_left _ _) hfixed)
  · exact List.subset_append_of_subset_left _
      (List.Subset.trans hsupertypes (List.Subset.trans (List.subset_append_right _ _) hfixed))
  · exact List.subset_append_of_subset_right _ hproperties

theorem builderSymbols_subset : interfaceSymbols group.contract ⊆ groupSymbols group := by
  have hbuilder : interfaceSymbols group.contract = group.setters.flatMap functionSymbols := by
    simp [interfaceSymbols, PropertyGroup.contract, functionSymbols, PropertyGroup.buildFunction,
      bodySymbols]
  rw [hbuilder]
  refine flatMap_subset fun function hf => ?_
  obtain ⟨member, hm, hf⟩ := List.mem_flatMap.mp hf
  refine List.Subset.trans ?_ (memberSymbols_subset hm)
  rcases List.mem_cons.mp hf with rfl | ho
  · exact setterSymbols_subset group member
  · exact overloadSymbols_subset group ho

/-- A default implementation asks for the types of its members and for what its builder needs. -/
theorem classSymbols_defaultImplementation :
    classSymbols group.defaultImplementation =
      (group.members.map fun member => member.type).flatMap typeSymbols ++
        (group.nestedBuilder.properties.flatMap propertySymbols ++
          group.nestedBuilder.functions.flatMap functionSymbols) := by
  simp [PropertyGroup.defaultImplementation, classSymbols, classesSymbols, List.flatMap_map,
    propertySymbols, PropertyGroup.nestedBuilder]

theorem defaultImplementationSymbols_subset :
    classSymbols group.defaultImplementation ⊆ groupSymbols group := by
  have hproperties : (group.members.map fun member => member.type).flatMap typeSymbols ⊆
      groupSymbols group := map_subset_groupSymbols typeSymbols_subset
  have hfields : (group.members.map Member.field).flatMap propertySymbols ⊆ groupSymbols group :=
    map_subset_groupSymbols fieldSymbols_subset
  have hfunctions : group.nestedBuilder.functions.flatMap functionSymbols ⊆ groupSymbols group := by
    rw [group.nestedBuilder_functions, List.flatMap_append, List.flatMap_singleton]
    exact List.append_subset.mpr
      ⟨map_subset_groupSymbols (implementationSymbols_subset group), buildSymbols_subset group⟩
  rw [classSymbols_defaultImplementation]
  exact List.append_subset.mpr ⟨hproperties, List.append_subset.mpr ⟨hfields, hfunctions⟩⟩

/-- The arguments of `build` ask for what the members need for their defaults. -/
theorem argumentSymbols_subset_defaultImplementation {member : Member}
    (hm : member ∈ group.members) :
    argumentSymbols member.argument ⊆ classSymbols group.defaultImplementation := by
  intro symbol hs
  have hbuild : symbol ∈
      functionSymbols (group.buildFunction.implementation group.buildBody) := by
    rw [functionSymbols, Function.implementation_body,
      group.buildBody_eq_construct (List.ne_nil_of_mem hm)]
    exact List.mem_append_right _
      (List.mem_flatMap.mpr ⟨_, List.mem_map_of_mem hm, hs⟩)
  rw [classSymbols_defaultImplementation, group.nestedBuilder_functions]
  refine List.mem_append_right _ (List.mem_append_right _ (List.mem_flatMap.mpr ⟨_, ?_, hbuild⟩))
  exact List.mem_append_right _ (List.mem_singleton_self _)

theorem triadSymbols_eq (kind : TriadKind) (doc : String) :
    (Triad.ofGroup kind group doc).declarations.flatMap declarationSymbols =
      interfaceSymbols (Triad.ofGroup kind group doc).contract ++
        (interfaceSymbols group.contract ++ classSymbols group.defaultImplementation) := by
  simp [Triad.declarations, Triad.ofGroup, declarationSymbols]

theorem triadSymbols_subset (kind : TriadKind) (doc : String) :
    (Triad.ofGroup kind group doc).declarations.flatMap declarationSymbols ⊆
      fixedSymbols ++ groupSymbols group := by
  rw [triadSymbols_eq]
  refine List.append_subset.mpr ⟨contractSymbols_subset group kind doc, ?_⟩
  exact List.subset_append_of_subset_right _ (List.append_subset.mpr
    ⟨builderSymbols_subset group, defaultImplementationSymbols_subset group⟩)

/-- A triad asks for the symbols of every member: the contract for its type, the builder inside the
default implementation for its default. -/
theorem groupSymbols_subset (kind : TriadKind) (doc : String) :
    groupSymbols group ⊆
      (Triad.ofGroup kind group doc).declarations.flatMap declarationSymbols := by
  rw [triadSymbols_eq]
  refine flatMap_subset fun member hm => ?_
  cases member with
  | delegate d => simp [memberSymbols]
  | flat p =>
    refine List.append_subset.mpr ⟨?_, ?_⟩
    · refine List.subset_append_of_subset_left _ fun symbol hs => ?_
      refine List.mem_append_left _ (List.mem_append_left _ (List.mem_append_right _ ?_))
      exact List.mem_flatMap.mpr ⟨_, List.mem_map_of_mem hm, hs⟩
    · exact List.subset_append_of_subset_right _ (List.subset_append_of_subset_right _
        (argumentSymbols_subset_defaultImplementation group hm))

end

/-- The flat members of a family's groups are properties of its component. -/
theorem flat_mem_occurrences {schema : Schema} {group : PropertyGroup} {p : Property}
    (hg : group ∈ [styleGroup schema, colorsGroup schema, dimensionsGroup schema])
    (hp : .flat p ∈ group.members) : p ∈ schema.occurrences := by
  simp only [List.mem_cons, List.not_mem_nil, or_false] at hg
  rcases hg with rfl | rfl | rfl
  · exact mem_occurrences_of_mem_list (by simpa [styleGroup, Schema.styleProperties] using hp)
  · exact mem_occurrences_of_mem_list (by simpa [colorsGroup, Schema.colorProperties] using hp)
  · exact mem_occurrences_of_mem_list (by simpa [dimensionsGroup, Schema.dimensionProperties] using hp)

/-- Only the style delegates: to the builders of its colors and of its dimensions. -/
theorem delegate_cases {schema : Schema} {group : PropertyGroup} {d : Delegate}
    (hg : group ∈ [styleGroup schema, colorsGroup schema, dimensionsGroup schema])
    (hd : .delegate d ∈ group.members) :
    d = ⟨MemberName.colors, (colorsGroup schema).result, (colorsGroup schema).builder,
        colorsDoc⟩ ∨
      d = ⟨MemberName.dimensions, (dimensionsGroup schema).result,
        (dimensionsGroup schema).builder, dimensionsDoc⟩ := by
  simp only [List.mem_cons, List.not_mem_nil, or_false] at hg
  rcases hg with rfl | rfl | rfl
  · simpa [styleGroup, colorsGroup, dimensionsGroup] using hd
  · simp [colorsGroup] at hd
  · simp [dimensionsGroup] at hd

/-- A unit asks for its fixed symbols and those of the categories it has properties of. -/
theorem mem_unitSymbols {schema : Schema} {symbol : Symbol}
    (h : symbol ∈ unitSymbols (assemble schema)) :
    symbol ∈ fixedSymbols ∨ ∃ p ∈ schema.occurrences, symbol ∈ categorySymbols p.category := by
  have hgroup : ∀ group ∈ [styleGroup schema, colorsGroup schema, dimensionsGroup schema],
      symbol ∈ fixedSymbols ++ groupSymbols group →
        symbol ∈ fixedSymbols ∨ ∃ p ∈ schema.occurrences, symbol ∈ categorySymbols p.category := by
    intro group hg hs
    refine (List.mem_append.mp hs).imp_right fun hs => ?_
    obtain ⟨member, hm, hs⟩ := List.mem_flatMap.mp hs
    cases member with
    | flat p => exact ⟨p, flat_mem_occurrences hg hm, hs⟩
    | delegate d => simp [memberSymbols] at hs
  rw [unitSymbols, Artifacts.declarations, List.flatMap_append, List.flatMap_append] at h
  rcases List.mem_append.mp h with ha | h
  · exact .inl (List.mem_append_left _ ha)
  · rcases List.mem_append.mp h with h | hd
    · rcases List.mem_append.mp h with hs | hc
      · exact hgroup _ (by simp) (triadSymbols_subset _ _ _ hs)
      · exact hgroup _ (by simp) (triadSymbols_subset _ _ _ hc)
    · exact hgroup _ (by simp) (triadSymbols_subset _ _ _ hd)

/-- Every property is a flat member of one of the groups. -/
theorem exists_group_of_occurrence {schema : Schema} {p : Property} (hp : p ∈ schema.occurrences) :
    ∃ group ∈ [styleGroup schema, colorsGroup schema, dimensionsGroup schema],
      .flat p ∈ group.members := by
  have hname := mem_occurrences.mp hp
  have hlist : ∀ categories, p.category ∈ categories → p ∈ schema.properties.list categories :=
    fun categories hc => List.mem_flatMap.mpr ⟨_, hc, List.mem_map_of_mem hname⟩
  have hwhere : p.category ∈ Category.styleOrder ∨ p.category ∈ [Category.color] ∨
      p.category ∈ [Category.dimension] := by
    cases p.category <;> decide
  rcases hwhere with hs | hc | hd
  · exact ⟨styleGroup schema, by simp,
      List.mem_append_left _ (List.mem_map_of_mem (hlist _ hs))⟩
  · exact ⟨colorsGroup schema, by simp, List.mem_map_of_mem (hlist _ hc)⟩
  · exact ⟨dimensionsGroup schema, by simp, List.mem_map_of_mem (hlist _ hd)⟩

theorem groupSymbols_subset_unitSymbols {schema : Schema} {group : PropertyGroup}
    (hg : group ∈ [styleGroup schema, colorsGroup schema, dimensionsGroup schema]) :
    groupSymbols group ⊆ unitSymbols (assemble schema) := by
  rw [unitSymbols, Artifacts.declarations, List.flatMap_append, List.flatMap_append]
  refine List.subset_append_of_subset_right _ ?_
  simp only [List.mem_cons, List.not_mem_nil, or_false] at hg
  rcases hg with rfl | rfl | rfl
  · exact List.subset_append_of_subset_left _
      (List.subset_append_of_subset_left _ (groupSymbols_subset _ .style styleDoc))
  · exact List.subset_append_of_subset_left _
      (List.subset_append_of_subset_right _ (groupSymbols_subset _ .colors colorsDoc))
  · exact List.subset_append_of_subset_right _ (groupSymbols_subset _ .dimensions dimensionsDoc)

/-- The contract of the style is immutable and extends the base of styles. -/
theorem fixedSymbols_subset_unitSymbols (schema : Schema) :
    fixedSymbols ⊆ unitSymbols (assemble schema) := by
  have hhead : [immutable] ++ [styleBase] ⊆ interfaceSymbols (assemble schema).style.contract := by
    intro symbol hs
    exact List.mem_append_left _ (List.mem_append_left _ (List.mem_append_left _ hs))
  refine List.append_subset.mpr ⟨List.subset_append_left _ _, fun symbol hs => ?_⟩
  exact List.mem_append_right _ (List.mem_flatMap.mpr ⟨_, List.mem_cons_self, hhead hs⟩)

theorem mem_unitSymbols_iff {schema : Schema} {symbol : Symbol} :
    symbol ∈ unitSymbols (assemble schema) ↔
      symbol ∈ fixedSymbols ∨ ∃ p ∈ schema.occurrences, symbol ∈ categorySymbols p.category := by
  refine ⟨mem_unitSymbols, ?_⟩
  rintro (hfixed | ⟨p, hp, hs⟩)
  · exact fixedSymbols_subset_unitSymbols schema hfixed
  · obtain ⟨group, hg, hm⟩ := exists_group_of_occurrence hp
    exact groupSymbols_subset_unitSymbols hg (List.mem_flatMap.mpr ⟨_, hm, hs⟩)

/-- What holds of the fixed symbols and of those of each category holds of all a unit asks for. -/
theorem forall_unitSymbols {P : Symbol → Prop} (hf : ∀ symbol ∈ fixedSymbols, P symbol)
    (hc : ∀ category, ∀ symbol ∈ categorySymbols category, P symbol) {schema : Schema}
    {symbol : Symbol} (h : symbol ∈ unitSymbols (assemble schema)) : P symbol := by
  rcases mem_unitSymbols h with h | ⟨p, _, h⟩
  · exact hf symbol h
  · exact hc p.category symbol h

/-- The packages that hold what units ask for. -/
def symbolPackages : List String :=
  [composeRuntime, composeGraphics, composeText, composeUnit, kitInteractions, kitShadow, kitStyle]

theorem packageFault?_symbolPackages :
    ∀ package ∈ symbolPackages, packageFault? package = none := by decide +kernel

theorem symbol_wellFormed {schema : Schema} {symbol : Symbol}
    (h : symbol ∈ unitSymbols (assemble schema)) :
    symbol.package ∈ symbolPackages ∧ isIdentifier symbol.name = true := by
  have hfixed : ∀ symbol ∈ fixedSymbols,
      symbol.package ∈ symbolPackages ∧ isIdentifier symbol.name = true := by decide
  refine forall_unitSymbols hfixed (fun category => ?_) h
  cases category <;> decide

/-- The qualified names of the import lines are those of the symbols from other packages. -/
theorem mem_lines {imports : Imports} {package line : String} :
    line ∈ imports.lines package ↔
      ∃ symbol ∈ imports.symbols, symbol.package ≠ package ∧ line = "import " ++ symbol.qualified := by
  rw [Imports.lines, ImportTable.mem_lines]
  simp only [Imports.table, ImportTable.mem_symbols_extend_empty]

end Kotlin
end StyleFamily
