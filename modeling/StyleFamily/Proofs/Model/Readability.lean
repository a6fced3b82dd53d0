import StyleFamily.Proofs.Command.Agreement

/-!
# Families that the interpreter can read

The interpreter looks for `build` and for the fields behind the colors and dimensions by name, and
takes the first match. Over all schemas, checked or not, it finds them exactly when no property is
called `build` and none of the style's own is called like one of the two fields.
-/
namespace StyleFamily

namespace PropertyGroup
variable {group : PropertyGroup}

/-- A member called `build` hides the function of that name behind its own setter. -/
theorem function?_build_hidden {member : Member} (hm : member ∈ group.members)
    (hn : member.name = MemberName.build) :
    ∃ other ∈ group.members, group.nestedBuilder.function? MemberName.build =
      some ((group.setter other).implementation other.setterBody) := by
  have hsome : ((group.members.map fun member =>
      (group.setter member).implementation member.setterBody).find?
        (·.name == MemberName.build)).isSome = true := by
    rw [List.find?_isSome]
    exact ⟨_, List.mem_map_of_mem hm, by simpa using hn⟩
  obtain ⟨function, hf⟩ := Option.isSome_iff_exists.mp hsome
  obtain ⟨other, ho, rfl⟩ := List.mem_map.mp (List.mem_of_find?_eq_some hf)
  refine ⟨other, ho, ?_⟩
  rw [ClassSpec.function?, nestedBuilder_functions, List.find?_append, hf]
  rfl

theorem argumentsOf?_setterBody (member : Member) :
    RecordBuilder.argumentsOf? member.setterBody = none := by
  cases member <;> rfl

theorem ofTriad_of_hidden {member : Member} (hm : member ∈ group.members)
    (hn : member.name = MemberName.build) (kind : TriadKind) (doc : String) :
    ∃ other ∈ group.members, RecordBuilder.ofTriad (.ofGroup kind group doc) =
      .error (.unexpectedBuild group.result other.setterBody) := by
  obtain ⟨other, ho, hf⟩ := function?_build_hidden hm hn
  have hnested : (Triad.ofGroup kind group doc).defaultImpl.nested? MemberName.nestedBuilder =
      some group.nestedBuilder := rfl
  refine ⟨other, ho, ?_⟩
  simp only [RecordBuilder.ofTriad, hnested, hf, Function.implementation_body,
    argumentsOf?_setterBody]
  rfl

/-- Otherwise the arguments of `build` decide. -/
theorem ofTriad_eq (hb : ∀ member ∈ group.members, member.name ≠ MemberName.build)
    (kind : TriadKind) (doc : String) :
    RecordBuilder.ofTriad (.ofGroup kind group doc) =
      (RecordBuilder.readArguments group.nestedBuilder (group.members.map Member.argument)
        ([], [])).map fun (slots, delegates) =>
          { typeName := group.result, slots, delegates
            setters := RecordBuilder.settersOf group.nestedBuilder.functions
            overloads := RecordBuilder.overloadsOf group.contract.functions } := by
  have hnested : (Triad.ofGroup kind group doc).defaultImpl.nested? MemberName.nestedBuilder =
      some group.nestedBuilder := rfl
  simp only [RecordBuilder.ofTriad, hnested, function?_build hb, Function.implementation_body,
    argumentsOf?_buildBody]
  cases RecordBuilder.readArguments group.nestedBuilder (group.members.map Member.argument)
    ([], []) <;> rfl

/-- Arguments are read when every sub-builder has its field, however often a name repeats. -/
theorem readArguments_ok {builder : ClassSpec} {members : List Member}
    (hc : ∀ d, .delegate d ∈ members →
      RecordBuilder.contractOf? builder (MemberName.builderField d.member) = some d.contract)
    (slots : List Slot) (delegates : List DelegateSlot) :
    ∃ read, RecordBuilder.readArguments builder (members.map Member.argument)
      (slots, delegates) = .ok (read, delegates ++ members.filterMap Member.delegate?) := by
  induction members generalizing slots delegates with
  | nil => exact ⟨slots, by simp [RecordBuilder.readArguments]⟩
  | cons member rest ih =>
    have hrest : ∀ d, .delegate d ∈ rest →
        RecordBuilder.contractOf? builder (MemberName.builderField d.member) = some d.contract :=
      fun d hd => hc d (List.mem_cons_of_mem _ hd)
    cases member with
    | flat p => exact ih hrest _ _
    | delegate d =>
      obtain ⟨read, hr⟩ := ih hrest slots (delegates ++ [⟨d.member, d.contract⟩])
      refine ⟨read, ?_⟩
      simp only [List.map_cons, Member.argument, RecordBuilder.readArguments,
        hc d List.mem_cons_self, hr]
      simp [Member.delegate?]

theorem readArguments_error {builder : ClassSpec} {members : List Member} {d : Delegate}
    (hd : .delegate d ∈ members)
    (hc : RecordBuilder.contractOf? builder (MemberName.builderField d.member) = none)
    (slots : List Slot) (delegates : List DelegateSlot) :
    ∃ error, RecordBuilder.readArguments builder (members.map Member.argument)
      (slots, delegates) = .error error := by
  induction members generalizing slots delegates with
  | nil => simp at hd
  | cons member rest ih =>
    cases member with
    | flat p =>
      have hr : .delegate d ∈ rest := by simpa using hd
      exact ih hr _ _
    | delegate other =>
      simp only [List.map_cons, Member.argument, RecordBuilder.readArguments]
      rcases hother : RecordBuilder.contractOf? builder (MemberName.builderField other.member)
        with _ | contract
      · exact ⟨_, rfl⟩
      · have hr : .delegate d ∈ rest := by
          rcases List.mem_cons.mp hd with he | hr
          · obtain rfl := Member.delegate.inj he
            simp [hc] at hother
          · exact hr
        exact ih hr _ _

end PropertyGroup

/-- The interpreter reads a builder from what it is given. -/
def Readable {ε β : Type} (builder : Except ε β) : Prop := ∃ b, builder = .ok b

theorem not_readable_error {ε β : Type} (error : ε) :
    ¬Readable (.error error : Except ε β) := by
  rintro ⟨b, hb⟩
  simp at hb

theorem readable_bind_iff {ε α β : Type} {first : Except ε α} {next : α → Except ε β} :
    Readable (first >>= next) ↔ ∃ a, first = .ok a ∧ Readable (next a) := by
  cases first with
  | error error => simp [bind, Except.bind, not_readable_error]
  | ok a => simp [bind, Except.bind]

theorem readable_flat_iff {group : PropertyGroup} {properties : List Property}
    (hm : group.members = properties.map .flat) (kind : TriadKind) (doc : String) :
    Readable (RecordBuilder.ofTriad (.ofGroup kind group doc)) ↔
      MemberName.build ∉ properties.map Property.name := by
  constructor
  · intro hr hmem
    obtain ⟨p, hp, hn⟩ := List.mem_map.mp hmem
    have hflat : Member.flat p ∈ group.members := hm ▸ List.mem_map_of_mem hp
    obtain ⟨_, _, he⟩ := PropertyGroup.ofTriad_of_hidden hflat hn kind doc
    exact not_readable_error _ (he ▸ hr)
  · intro hb
    have hbuild : ∀ member ∈ group.members, member.name ≠ MemberName.build := by
      intro member hmem hn
      rw [hm] at hmem
      obtain ⟨p, hp, rfl⟩ := List.mem_map.mp hmem
      exact hb (hn ▸ List.mem_map_of_mem hp)
    have hnone : ∀ d, .delegate d ∈ group.members → RecordBuilder.contractOf? group.nestedBuilder
        (MemberName.builderField d.member) = some d.contract := by
      intro d hd
      simp [hm] at hd
    obtain ⟨read, hr⟩ := PropertyGroup.readArguments_ok hnone [] []
    rw [PropertyGroup.ofTriad_eq hbuild, hr]
    exact ⟨_, rfl⟩

/-- What the style delegates: its colors and its dimensions. -/
def Schema.delegates (schema : Schema) : List Delegate :=
  [⟨MemberName.colors, (colorsGroup schema).result, (colorsGroup schema).builder, colorsDoc⟩,
    ⟨MemberName.dimensions, (dimensionsGroup schema).result, (dimensionsGroup schema).builder,
      dimensionsDoc⟩]

theorem members_styleGroup (schema : Schema) :
    (styleGroup schema).members =
      schema.styleProperties.map .flat ++ schema.delegates.map .delegate := rfl

theorem mem_delegates {schema : Schema} {d : Delegate} :
    .delegate d ∈ (styleGroup schema).members ↔ d ∈ schema.delegates := by
  simp [members_styleGroup]

/-- The style's own properties come before the fields of its sub-builders. -/
theorem contractOf?_styleGroup {schema : Schema} {d : Delegate} (hd : d ∈ schema.delegates) :
    RecordBuilder.contractOf? (styleGroup schema).nestedBuilder
        (MemberName.builderField d.member) =
      if MemberName.builderField d.member ∈ schema.styleProperties.map Property.name then none
      else some d.contract := by
  have hfields : (styleGroup schema).nestedBuilder.properties =
      schema.styleProperties.map (fun p => (Member.flat p).field) ++
        schema.delegates.map fun d => (Member.delegate d).field := by
    rw [PropertyGroup.nestedBuilder, members_styleGroup, List.map_append, List.map_map,
      List.map_map]
    rfl
  rw [RecordBuilder.contractOf?, hfields, List.find?_append]
  by_cases hmem : MemberName.builderField d.member ∈ schema.styleProperties.map Property.name
  · obtain ⟨p, hp, hn⟩ := List.mem_map.mp hmem
    have hsome : ((schema.styleProperties.map fun p => (Member.flat p).field).find?
        (·.name == MemberName.builderField d.member)).isSome = true := by
      rw [List.find?_isSome]
      exact ⟨_, List.mem_map_of_mem hp, by simpa [Member.field] using hn⟩
    obtain ⟨field, hf⟩ := Option.isSome_iff_exists.mp hsome
    obtain ⟨q, _, rfl⟩ := List.mem_map.mp (List.mem_of_find?_eq_some hf)
    rw [hf, if_pos hmem]
    rfl
  · have hnone : (schema.styleProperties.map fun p => (Member.flat p).field).find?
        (·.name == MemberName.builderField d.member) = none := by
      rw [List.find?_eq_none]
      intro field hf hn
      obtain ⟨p, hp, rfl⟩ := List.mem_map.mp hf
      exact hmem (List.mem_map.mpr ⟨p, hp, by simpa [Member.field] using hn⟩)
    rw [hnone, Option.none_or, if_neg hmem]
    simp only [Schema.delegates, List.mem_cons, List.not_mem_nil, or_false] at hd
    rcases hd with rfl | rfl
    · rfl
    · rfl

theorem build_styleGroup_iff {schema : Schema} :
    (∀ member ∈ (styleGroup schema).members, member.name ≠ MemberName.build) ↔
      MemberName.build ∉ schema.styleProperties.map Property.name := by
  have hdelegates : ∀ d ∈ schema.delegates, d.member ≠ MemberName.build := by
    simp only [Schema.delegates, List.mem_cons, List.not_mem_nil, or_false]
    rintro d (rfl | rfl)
    · exact (by decide : MemberName.colors ≠ MemberName.build)
    · exact (by decide : MemberName.dimensions ≠ MemberName.build)
  simp only [members_styleGroup, List.mem_append, List.mem_map]
  constructor
  · rintro h ⟨p, hp, hn⟩
    exact h (.flat p) (.inl ⟨p, hp, rfl⟩) hn
  · rintro h member (⟨p, hp, rfl⟩ | ⟨d, hd, rfl⟩) hn
    · exact h ⟨p, hp, hn⟩
    · exact hdelegates d hd hn

/-- A style whose own properties keep clear of `build` and of the fields of its sub-builders. -/
structure Schema.SparesBuilder (schema : Schema) : Prop where
  build : MemberName.build ∉ schema.styleProperties.map Property.name
  fields : ∀ d ∈ schema.delegates,
    MemberName.builderField d.member ∉ schema.styleProperties.map Property.name

theorem read_style {schema : Schema} (h : schema.SparesBuilder) :
    ∃ builder, RecordBuilder.ofTriad (assemble schema).style = .ok builder ∧
      builder.delegates = styleDelegates schema := by
  have hc : ∀ d, .delegate d ∈ (styleGroup schema).members →
      RecordBuilder.contractOf? (styleGroup schema).nestedBuilder
        (MemberName.builderField d.member) = some d.contract := by
    intro d hd
    have hd := mem_delegates.mp hd
    rw [contractOf?_styleGroup hd, if_neg (h.fields d hd)]
  obtain ⟨read, hr⟩ := PropertyGroup.readArguments_ok hc [] []
  have hstyle : RecordBuilder.ofTriad (assemble schema).style = _ :=
    PropertyGroup.ofTriad_eq (build_styleGroup_iff.mpr h.build) .style styleDoc
  rw [hr] at hstyle
  exact ⟨_, hstyle, delegates_styleGroup schema⟩

theorem sparesBuilder_of_readable {schema : Schema}
    (h : Readable (RecordBuilder.ofTriad (assemble schema).style)) : schema.SparesBuilder := by
  have hbuild : ∀ member ∈ (styleGroup schema).members, member.name ≠ MemberName.build := by
    intro member hm hn
    obtain ⟨_, _, he⟩ := PropertyGroup.ofTriad_of_hidden hm hn .style styleDoc
    have hstyle : RecordBuilder.ofTriad (assemble schema).style = .error _ := he
    exact not_readable_error _ (hstyle ▸ h)
  refine ⟨build_styleGroup_iff.mp hbuild, fun d hd hmem => ?_⟩
  have hc := contractOf?_styleGroup hd
  rw [if_pos hmem] at hc
  obtain ⟨error, he⟩ := PropertyGroup.readArguments_error (mem_delegates.mpr hd) hc [] []
  have hstyle : RecordBuilder.ofTriad (assemble schema).style = _ :=
    PropertyGroup.ofTriad_eq hbuild .style styleDoc
  rw [he] at hstyle
  exact not_readable_error error (hstyle ▸ h)

/-- Both members are built under the names of the triads that are asked for. -/
theorem delegate_eq {schema : Schema} {builder : RecordBuilder}
    (hd : builder.delegates = styleDelegates schema) :
    StyleBuilder.delegate builder MemberName.colors (assemble schema).colors =
        RecordBuilder.ofTriad (assemble schema).colors ∧
      StyleBuilder.delegate builder MemberName.dimensions (assemble schema).dimensions =
        RecordBuilder.ofTriad (assemble schema).dimensions := by
  simp only [StyleBuilder.delegate, hd]
  exact ⟨if_pos rfl, if_pos rfl⟩

theorem readable_family_iff {schema : Schema} :
    Readable (StyleBuilder.ofArtifacts (assemble schema)) ↔
      schema.SparesBuilder ∧ MemberName.build ∉ schema.colorProperties.map Property.name ∧
        MemberName.build ∉ schema.dimensionProperties.map Property.name := by
  have hcolorMembers : (colorsGroup schema).members = schema.colorProperties.map .flat := rfl
  have hdimensionMembers : (dimensionsGroup schema).members =
    schema.dimensionProperties.map .flat := rfl
  have hcolors : Readable (RecordBuilder.ofTriad (assemble schema).colors) ↔ _ :=
    readable_flat_iff hcolorMembers .colors colorsDoc
  have hdimensions : Readable (RecordBuilder.ofTriad (assemble schema).dimensions) ↔ _ :=
    readable_flat_iff hdimensionMembers .dimensions dimensionsDoc
  rw [← hcolors, ← hdimensions, StyleBuilder.ofArtifacts]
  constructor
  · intro h
    obtain ⟨style, hs, h⟩ := readable_bind_iff.mp h
    have hspares := sparesBuilder_of_readable ⟨style, hs⟩
    obtain ⟨read, hread, hd⟩ := read_style hspares
    obtain rfl : style = read := Except.ok.inj (hs.symm.trans hread)
    obtain ⟨hc, hdim⟩ := delegate_eq hd
    rw [hc, hdim] at h
    obtain ⟨colors, hcolors, h⟩ := readable_bind_iff.mp h
    obtain ⟨dimensions, hdimensions, _⟩ := readable_bind_iff.mp h
    exact ⟨hspares, ⟨colors, hcolors⟩, ⟨dimensions, hdimensions⟩⟩
  · rintro ⟨hspares, ⟨colors, hcolors⟩, ⟨dimensions, hdimensions⟩⟩
    obtain ⟨style, hs, hd⟩ := read_style hspares
    obtain ⟨hc, hdim⟩ := delegate_eq hd
    refine readable_bind_iff.mpr ⟨style, hs, ?_⟩
    rw [hc, hdim]
    exact readable_bind_iff.mpr ⟨colors, hcolors,
      readable_bind_iff.mpr ⟨dimensions, hdimensions, _, rfl⟩⟩

theorem mem_list_names {schema : Schema} {categories : List Category} {name : String} :
    name ∈ (schema.properties.list categories).map Property.name ↔
      ∃ category ∈ categories, name ∈ schema.properties.names category := by
  simp [Properties.list, List.map_flatMap, Function.comp_def]

/-- The conditions on the three groups, list by list. -/
theorem readable_lists_iff {schema : Schema} :
    Readable (StyleBuilder.ofArtifacts (assemble schema)) ↔
      (∀ category, MemberName.build ∉ schema.properties.names category) ∧
        ∀ category ∈ Category.styleOrder, ∀ member ∈ [MemberName.colors, MemberName.dimensions],
          MemberName.builderField member ∉ schema.properties.names category := by
  have hmembers : schema.delegates.map Delegate.member =
      [MemberName.colors, MemberName.dimensions] := rfl
  rw [readable_family_iff, ← hmembers]
  constructor
  · rintro ⟨⟨hstyle, hfields⟩, hcolors, hdimensions⟩
    rw [Schema.styleProperties, mem_list_names] at hstyle
    rw [Schema.colorProperties, mem_list_names] at hcolors
    rw [Schema.dimensionProperties, mem_list_names] at hdimensions
    refine ⟨fun category hn => ?_, fun category hc member hm hn => ?_⟩
    · have hwhere : category ∈ Category.styleOrder ∨ category = .color ∨ category = .dimension := by
        cases category <;> decide
      rcases hwhere with hc | rfl | rfl
      · exact hstyle ⟨category, hc, hn⟩
      · exact hcolors ⟨.color, List.mem_singleton_self _, hn⟩
      · exact hdimensions ⟨.dimension, List.mem_singleton_self _, hn⟩
    · obtain ⟨d, hd, rfl⟩ := List.mem_map.mp hm
      exact hfields d hd (mem_list_names.mpr ⟨category, hc, hn⟩)
  · rintro ⟨hbuild, hfields⟩
    have hnone : ∀ categories,
        MemberName.build ∉ (schema.properties.list categories).map Property.name := by
      intro categories hm
      obtain ⟨category, _, hn⟩ := mem_list_names.mp hm
      exact hbuild category hn
    refine ⟨⟨hnone _, fun d hd hm => ?_⟩, hnone _, hnone _⟩
    obtain ⟨category, hc, hn⟩ := mem_list_names.mp hm
    exact hfields category hc d.member (List.mem_map_of_mem hd) hn

/-- What the lint of reserved names passes can be read. -/
theorem readable_of_unreserved {schema : Schema}
    (h : Diagnostic.errorCount (Lint.reservedMember.check schema) = 0) :
    Readable (StyleBuilder.ofArtifacts (assemble schema)) := by
  rw [Lint.reservedMember, errorCount_check, errorCount_reservedNames, List.countP_eq_zero] at h
  have hfree : ∀ category, ∀ name ∈ schema.properties.names category,
      name ≠ MemberName.build ∧ (category ∈ Category.styleOrder → name ∉ styleMemberNames) := by
    intro category name hn
    have hr := h ⟨name, category⟩ (mem_occurrences.mpr hn)
    rw [Property.isReserved, Bool.not_eq_true, Bool.or_eq_false_iff, Bool.and_eq_false_iff] at hr
    refine ⟨by simpa using hr.1, fun hc => ?_⟩
    rcases hr.2 with hf | hf
    · exact absurd hc (by simpa using hf)
    · simpa using hf
  have hfields : ∀ member ∈ [MemberName.colors, MemberName.dimensions],
      MemberName.builderField member ∈ styleMemberNames := by decide
  refine readable_lists_iff.mpr ⟨fun category hn => ?_, fun category hc member hm hn => ?_⟩
  · exact (hfree category _ hn).1 rfl
  · exact (hfree category _ hn).2 hc (hfields member hm)

theorem explain_succeeds (file : ManifestFile) : ∃ report, file.explain = .ok report := by
  rw [ManifestFile.explain_eq]
  rcases compiled_cases file.manifest.scan with ⟨miss, hc⟩ | ⟨schema, notes, hc⟩
  · rw [hc]
    exact ⟨_, rfl⟩
  · have haccepted := compiled_accepted schema notes
    have hanalysis : ∃ analysis,
        file.analyze (Context.ofScan schema notes).compiled = .ok analysis := by
      by_cases ha : Lint.accepts schema = true
      · rw [if_pos ha] at haccepted
        obtain ⟨analysis, h, _⟩ := file.analyze_accepted ha haccepted
        exact ⟨_, h⟩
      · rw [if_neg ha] at haccepted
        obtain ⟨errors, h⟩ := file.analyze_rejected haccepted
        exact ⟨_, h⟩
    obtain ⟨analysis, h⟩ := hanalysis
    rw [hc]
    exact ⟨file.explained analysis, by simp only [h]; rfl⟩

/-- A fresh builder can be read from the family of a schema, whatever its names, exactly when no
list holds `build` and no list of the style holds the field of a sub-builder. Schemas without
reserved names are among these, and an explanation always comes to a report. -/
theorem fresh_builder_iff (schema : Schema) :
    ((∃ builder, StyleBuilder.ofArtifacts (assemble schema) = .ok builder) ↔
      (∀ category, "build" ∉ schema.properties.names category) ∧
        ∀ category ∈ [Category.typography, .shape, .shadow, .floatValue],
          "colorsBuilder" ∉ schema.properties.names category ∧
            "dimensionsBuilder" ∉ schema.properties.names category) ∧
      (Diagnostic.errorCount (Lint.reservedMember.check schema) = 0 →
        ∃ builder, StyleBuilder.ofArtifacts (assemble schema) = .ok builder) ∧
      ∀ file : ManifestFile, ∃ report, file.explain = .ok report := by
  have hcolors : MemberName.builderField MemberName.colors = "colorsBuilder" := by decide
  have hdimensions : MemberName.builderField MemberName.dimensions = "dimensionsBuilder" := by
    decide
  have hlists := @readable_lists_iff schema
  simp only [List.forall_mem_cons, hcolors, hdimensions] at hlists
  refine ⟨?_, readable_of_unreserved, explain_succeeds⟩
  simpa [Readable, Category.styleOrder, MemberName.build] using hlists

/-- Repeated, shared, empty and unusable names, and reserved ones where they are free. -/
def tangledSchema : Schema where
  name := ""
  properties :=
    { shape := ["x", "x", ""], shadow := ["a-b", "x"], color := ["colorsBuilder", "colors"]
      dimension := ["dimensionsBuilder", "x", "x"] }

theorem tangled_fresh_builder :
    Diagnostic.errorCount (Lint.reservedMember.check tangledSchema) = 0 ∧
      Lint.accepts tangledSchema = false ∧
      ∃ builder, StyleBuilder.ofArtifacts (assemble tangledSchema) = .ok builder := by
  have h : Diagnostic.errorCount (Lint.reservedMember.check tangledSchema) = 0 := by
    decide +kernel
  exact ⟨h, by decide +kernel, (fresh_builder_iff tangledSchema).2.1 h⟩

end StyleFamily
