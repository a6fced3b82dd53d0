import StyleFamily.Proofs.Family.GroupTyping
import StyleFamily.Proofs.Lint.Acceptance

/-!
# Accepted schemas give well-typed families

The names of a family's declarations differ for any component name. The three groups of a schema
that the standard lints accept are well named, so the family that is assembled from it is well
typed.
-/
namespace StyleFamily

/-- The length and the last letter of a name, which tell the ten names of a family apart. -/
def nameMark (name : String) : Nat × Option Char := (name.length, name.toList.getLast?)

theorem nameMark_append (a b : String) :
    nameMark (a ++ b) = (a.length + b.length, b.toList.getLast?.or a.toList.getLast?) := by
  simp [nameMark, List.getLast?_append]

/-- No two names agree in both marks, whatever the component is called. -/
theorem names_nodup (base : String) :
    ((StyleNames.ofBase base).declarations ++ [(StyleNames.ofBase base).accessor]).Nodup := by
  apply List.Nodup.of_map nameMark
  have hlength : "Style".length = 5 ∧ "StyleBuilder".length = 12 ∧ "Colors".length = 6 ∧
      "ColorsBuilder".length = 13 ∧ "Dimensions".length = 10 ∧
      "DimensionsBuilder".length = 17 ∧ "Default".length = 7 ∧ "Local".length = 5 := by decide
  simp [StyleNames.ofBase, StyleNames.declarations, nameMark_append, hlength]
  omega

section
variable {schema : Schema} (h : schema.WellNamed)
include h

theorem list_names_nodup {categories : List Category} (hc : categories.Nodup) :
    ((schema.properties.list categories).map Property.name).Nodup := by
  obtain ⟨hwithin, hacross⟩ := occurrences_nodup.mp h.distinct
  have hn : (schema.properties.list categories).map Property.name =
      categories.flatMap schema.properties.names := by
    simp [Properties.list, List.map_flatMap, Function.comp_def]
  rw [hn, List.nodup_flatMap]
  refine ⟨fun category _ => hwithin category, hc.imp ?_⟩
  intro a b hne name ha hb
  exact hne (length_categoriesOf_lt_two.mp (hacross name) a b ha hb)

theorem list_unreserved {categories : List Category} {p : Property}
    (hp : p ∈ schema.properties.list categories) : p.isReserved = false := by
  simp only [Properties.list, List.mem_flatMap, List.mem_map] at hp
  obtain ⟨category, _, name, hn, rfl⟩ := hp
  exact h.unreserved _ (mem_occurrences.mpr hn)

theorem list_name_ne_build {categories : List Category} {p : Property}
    (hp : p ∈ schema.properties.list categories) : p.name ≠ MemberName.build := by
  have hr := list_unreserved h hp
  rw [Property.isReserved, Bool.or_eq_false_iff] at hr
  simpa using hr.1

/-- A group without delegates is well named as soon as its properties are. -/
theorem flat_wellNamed {group : PropertyGroup} {category : Category}
    (hm : group.members = (schema.properties.list [category]).map .flat) : group.WellNamed := by
  have hn := list_names_nodup h (List.nodup_singleton category)
  refine ⟨?_, ?_, ?_⟩
  · rw [hm, List.map_map]
    exact hn
  · rw [hm, List.map_map]
    exact hn
  · intro member hmem
    rw [hm] at hmem
    obtain ⟨p, hp, rfl⟩ := List.mem_map.mp hmem
    exact list_name_ne_build h hp

/-- The style's own properties stay clear of the members and fields behind its two groups. -/
theorem styleProperties_not_reserved {p : Property} (hp : p ∈ schema.styleProperties) :
    p.name ∉ styleMemberNames := by
  have hr := list_unreserved h hp
  simp only [Schema.styleProperties, Properties.list, List.mem_flatMap, List.mem_map] at hp
  obtain ⟨category, hc, name, _, rfl⟩ := hp
  rw [Property.isReserved, Bool.or_eq_false_iff, Bool.and_eq_false_iff] at hr
  rcases hr.2 with hf | hf
  · exact absurd hc (by simpa using hf)
  · simpa using hf

theorem styleGroup_wellNamed : (styleGroup schema).WellNamed := by
  have hn : (schema.styleProperties.map Property.name).Nodup :=
    list_names_nodup h (by decide)
  have hfree : ∀ name ∈ schema.styleProperties.map Property.name, name ∉ styleMemberNames := by
    intro name hm
    obtain ⟨p, hp, rfl⟩ := List.mem_map.mp hm
    exact styleProperties_not_reserved h hp
  have happ : ∀ extra : List String, extra.Nodup → extra ⊆ styleMemberNames →
      (schema.styleProperties.map Property.name ++ extra).Nodup := by
    intro extra he hs
    rw [List.nodup_append]
    refine ⟨hn, he, ?_⟩
    rintro a ha b hb rfl
    exact hfree a ha (hs hb)
  refine ⟨?_, ?_, ?_⟩
  · rw [styleGroup, List.map_append, List.map_map]
    exact happ [MemberName.colors, MemberName.dimensions] (by decide) (by decide)
  · rw [styleGroup, List.map_append, List.map_map]
    exact happ [MemberName.builderField MemberName.colors,
      MemberName.builderField MemberName.dimensions] (by decide) (by decide)
  · intro member hm
    rcases List.mem_append.mp hm with hf | hd
    · obtain ⟨p, hp, rfl⟩ := List.mem_map.mp hf
      exact list_name_ne_build h hp
    · simp only [List.mem_cons, List.not_mem_nil, or_false] at hd
      rcases hd with rfl | rfl
      · exact (by decide : MemberName.colors ≠ MemberName.build)
      · exact (by decide : MemberName.dimensions ≠ MemberName.build)

theorem holds_style : (assemble schema).Holds (styleGroup schema) :=
  ⟨styleGroup_wellNamed h, .style, styleDoc, by simp [Artifacts.triads, assemble]⟩

theorem holds_colors : (assemble schema).Holds (colorsGroup schema) :=
  ⟨flat_wellNamed h rfl, .colors, colorsDoc, by simp [Artifacts.triads, assemble]⟩

theorem holds_dimensions : (assemble schema).Holds (dimensionsGroup schema) :=
  ⟨flat_wellNamed h rfl, .dimensions, dimensionsDoc, by simp [Artifacts.triads, assemble]⟩

theorem delegates_style : (assemble schema).Delegates (styleGroup schema) := by
  intro d hd
  rcases List.mem_append.mp hd with hf | hd
  · simp at hf
  · simp only [List.mem_cons, Member.delegate.injEq, List.not_mem_nil, or_false] at hd
    rcases hd with rfl | rfl
    · exact ⟨colorsGroup schema, holds_colors h, rfl, rfl⟩
    · exact ⟨dimensionsGroup schema, holds_dimensions h, rfl, rfl⟩

end

theorem delegates_of_flat (artifacts : Artifacts) {group : PropertyGroup}
    {properties : List Property} (hm : group.members = properties.map .flat) :
    artifacts.Delegates group := by
  intro d hd
  simp [hm] at hd

/-- The only class nested in a default implementation, at any depth, is its builder. -/
theorem encloses_defaultImplementation {group : PropertyGroup} {spec : ClassSpec}
    (he : group.defaultImplementation.Encloses spec) :
    spec = group.defaultImplementation ∨ spec = group.nestedBuilder := by
  cases he with
  | self => exact .inl rfl
  | nested hn he =>
    obtain rfl := List.mem_singleton.mp hn
    cases he with
    | self => exact .inr rfl
    | nested hn _ => exact absurd hn List.not_mem_nil

theorem declarations_names (schema : Schema) :
    (assemble schema).declarations.map Declaration.name =
      (StyleNames.ofBase schema.name).declarations := rfl

/-- Every triad of the family is that of one of three groups. -/
theorem exists_group_of_mem_triads {schema : Schema} (h : schema.WellNamed) {triad : Triad}
    (ht : triad ∈ (assemble schema).triads) :
    ∃ kind group doc, triad = .ofGroup kind group doc ∧ (assemble schema).Holds group ∧
      (assemble schema).Delegates group := by
  simp only [Artifacts.triads, List.mem_cons, List.not_mem_nil, or_false] at ht
  rcases ht with rfl | rfl | rfl
  · exact ⟨.style, _, styleDoc, rfl, holds_style h, delegates_style h⟩
  · exact ⟨.colors, _, colorsDoc, rfl, holds_colors h, delegates_of_flat _ rfl⟩
  · exact ⟨.dimensions, _, dimensionsDoc, rfl, holds_dimensions h, delegates_of_flat _ rfl⟩

/-- Whatever the standard lints accept is assembled into a well-typed family: names are distinct,
every reference resolves to one thing inside the family, and that thing fits. -/
theorem assemble_wellTyped {schema : Schema} (h : Lint.accepts schema = true) :
    (assemble schema).WellTyped := by
  have hw := accepts_iff_wellNamed.mp h
  have hnames := names_nodup schema.name
  have hn : ((assemble schema).declarations.map Declaration.name).Nodup := by
    rw [declarations_names]
    exact (List.nodup_append.mp hnames).1
  refine ⟨hnames, ?_, ?_, ?_, ?_⟩
  · intro triad ht
    obtain ⟨kind, group, doc, rfl, hholds, hdelegates⟩ := exists_group_of_mem_triads hw ht
    exact Artifacts.contractTyped hn ht hholds hdelegates
  · intro triad ht
    obtain ⟨kind, group, doc, rfl, hholds, hdelegates⟩ := exists_group_of_mem_triads hw ht
    exact Artifacts.builderTyped _ hn hholds hdelegates
  · intro triad ht spec he
    obtain ⟨kind, group, doc, rfl, hholds, hdelegates⟩ := exists_group_of_mem_triads hw ht
    rcases encloses_defaultImplementation he with rfl | rfl
    · exact Artifacts.defaultImplementationTyped hn ht hholds hdelegates
    · exact Artifacts.nestedBuilderTyped hn ht hholds hdelegates
  · exact ⟨_, Artifacts.makes_builder hn (holds_style hw),
      Artifacts.builds_result hn (holds_style hw)⟩

/-- A component with a property in every category. -/
def buttonSchema : Schema where
  name := "Button"
  properties :=
    { shape := ["shape"], shadow := ["shadow"], floatValue := ["alpha"], typography := ["label"]
      color := ["content", "background"], dimension := ["padding"] }

theorem button_wellTyped :
    Lint.accepts buttonSchema = true ∧ (assemble buttonSchema).WellTyped := by
  have h : Lint.accepts buttonSchema = true := by decide +kernel
  exact ⟨h, assemble_wellTyped h⟩

end StyleFamily
