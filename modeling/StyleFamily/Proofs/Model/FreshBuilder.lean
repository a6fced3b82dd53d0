import StyleFamily.Proofs.Family.WellTyped
import StyleFamily.Proofs.Model.Store

/-!
# Builders as read from generated declarations

The interpreter finds slots, setters, overloads and delegates in the bodies of generated functions.
For a well-named group it finds one slot and one setter for each property of the group, one
overload for each color property and one delegate for each member that is built elsewhere; for the
family of an accepted schema it finds the fresh builder of the schema's store.
-/
namespace StyleFamily

/-- The property that a member is, unless it is delegated. -/
def Member.property? : Member → Option Property
  | flat p => some p
  | delegate _ => none

/-- The delegate that a member is, unless it is flat. -/
def Member.delegate? : Member → Option DelegateSlot
  | flat _ => none
  | delegate d => some ⟨d.member, d.contract⟩

/-- The properties of a group, under the name of its result. -/
def PropertyGroup.store (group : PropertyGroup) : Store where
  typeName := group.result
  properties := group.members.filterMap Member.property?

namespace Store

/-- The slot of a property, after what was set. -/
def slot (log : Log) (p : Property) : Slot where
  field := p.name
  fallback := p.category.defaultValue
  value := log.lookup p.name

/-- The generated builder of a store, after what was set. -/
def builder (store : Store) (delegates : List DelegateSlot) (log : Log) : RecordBuilder where
  typeName := store.typeName
  slots := store.properties.map (slot log)
  setters := store.properties.map fun p => (p.name, p.name)
  overloads := (store.properties.filter (·.category = .color)).map fun p => (p.name, p.name)
  delegates

end Store

namespace PropertyGroup
variable {group : PropertyGroup}

theorem store_names_nodup (hw : group.WellNamed) :
    (group.store.properties.map Property.name).Nodup := by
  have hsub : (group.store.properties.map Property.name).Sublist
      (group.members.map Member.name) := by
    rw [store]
    induction group.members with
    | nil => exact List.Sublist.slnil
    | cons member rest ih =>
      cases member with
      | flat p => exact ih.cons_cons _
      | delegate d => exact ih.cons _
  exact hw.members.sublist hsub

theorem settersOf_nestedBuilder :
    RecordBuilder.settersOf group.nestedBuilder.functions =
      group.store.properties.map fun p => (p.name, p.name) := by
  have happ : ∀ fs gs, RecordBuilder.settersOf (fs ++ gs) =
      RecordBuilder.settersOf fs ++ RecordBuilder.settersOf gs :=
    fun fs gs => List.filterMap_append
  have hbuild :
      RecordBuilder.settersOf [group.buildFunction.implementation group.buildBody] = [] := by
    by_cases hm : group.members = []
    · simp [RecordBuilder.settersOf, group.buildBody_eq_singleton hm]
    · simp [RecordBuilder.settersOf, group.buildBody_eq_construct hm]
  rw [nestedBuilder_functions, happ, hbuild, List.append_nil, RecordBuilder.settersOf,
    List.filterMap_map, store, List.map_filterMap]
  apply List.filterMap_congr
  intro member _
  cases member <;> rfl

theorem overloadsOf_member (member : Member) (rest : List Function) :
    RecordBuilder.overloadsOf (group.setter member :: group.overload member ++ rest) =
      ((member.property?.toList.filter (·.category = .color)).map fun p => (p.name, p.name)) ++
        RecordBuilder.overloadsOf rest := by
  cases member with
  | delegate d => rfl
  | flat p =>
    by_cases hc : p.category = .color
    · simp [RecordBuilder.overloadsOf, Member.property?, overload, setter, hc]
    · simp [RecordBuilder.overloadsOf, Member.property?, overload, setter, hc]

theorem overloadsOf_contract :
    RecordBuilder.overloadsOf group.contract.functions =
      (group.store.properties.filter (·.category = .color)).map fun p => (p.name, p.name) := by
  rw [contract, setters, store]
  induction group.members with
  | nil => rfl
  | cons member rest ih =>
    rw [List.flatMap_cons, List.append_assoc, overloadsOf_member, ih, List.filterMap_cons]
    cases member.property? with
    | none => rfl
    | some p => by_cases hc : p.category = .color <;> simp [hc]

theorem putSlot_fresh {slot : Slot} {slots : List Slot} (h : slot.field ∉ slots.map Slot.field) :
    putSlot slot slots = slots ++ [slot] := by
  induction slots with
  | nil => rfl
  | cons other rest ih =>
    rw [List.map_cons, List.mem_cons, not_or] at h
    rw [putSlot, if_neg (Ne.symm h.1), ih h.2]
    rfl

/-- Arguments are read into one slot or delegate each, behind those read before. -/
theorem readArguments_members {builder : ClassSpec} {members : List Member} {slots : List Slot}
    {delegates : List DelegateSlot}
    (hn : (slots.map Slot.field ++ (members.filterMap Member.property?).map Property.name).Nodup)
    (hc : ∀ d, .delegate d ∈ members →
      RecordBuilder.contractOf? builder (MemberName.builderField d.member) = some d.contract) :
    RecordBuilder.readArguments builder (members.map Member.argument) (slots, delegates) =
      .ok (slots ++ (members.filterMap Member.property?).map (Store.slot []),
        delegates ++ members.filterMap Member.delegate?) := by
  induction members generalizing slots delegates with
  | nil => simp [RecordBuilder.readArguments]
  | cons member rest ih =>
    have hrest : ∀ d, .delegate d ∈ rest →
        RecordBuilder.contractOf? builder (MemberName.builderField d.member) = some d.contract :=
      fun d hd => hc d (List.mem_cons_of_mem _ hd)
    cases member with
    | flat p =>
      have hfresh : p.name ∉ slots.map Slot.field := by
        intro hm
        exact (List.nodup_append.mp hn).2.2 _ hm _ List.mem_cons_self rfl
      have hput : putSlot (Store.slot [] p) slots = slots ++ [Store.slot [] p] :=
        putSlot_fresh hfresh
      change RecordBuilder.readArguments builder (rest.map Member.argument)
        (putSlot (Store.slot [] p) slots, delegates) = _
      have hn' : ((slots ++ [Store.slot [] p]).map Slot.field ++
          (rest.filterMap Member.property?).map Property.name).Nodup := by
        simpa [Store.slot, Member.property?, List.filterMap_cons] using hn
      rw [hput, ih hn' hrest]
      simp [Member.property?, Member.delegate?, List.filterMap_cons]
    | delegate d =>
      have hcontract := hc d List.mem_cons_self
      simp only [List.map_cons, Member.argument, RecordBuilder.readArguments, hcontract]
      have hn' : (slots.map Slot.field ++
          (rest.filterMap Member.property?).map Property.name).Nodup := by
        simpa [Member.property?, List.filterMap_cons] using hn
      rw [ih hn' hrest]
      simp [Member.property?, Member.delegate?, List.filterMap_cons]

theorem contractOf?_nestedBuilder (hw : group.WellNamed) {d : Delegate}
    (hd : .delegate d ∈ group.members) :
    RecordBuilder.contractOf? group.nestedBuilder (MemberName.builderField d.member) =
      some d.contract := by
  have hone := hw.field hd
  rw [OnlyAt, nestedBuilder_fields] at hone
  have hfind : group.nestedBuilder.properties.find? (·.name == MemberName.builderField d.member) =
      some (Member.delegate d).field := by
    have hhead := congrArg List.head? hone
    rw [List.head?_filter] at hhead
    exact hhead
  rw [RecordBuilder.contractOf?, hfind]
  rfl

theorem function?_build (hb : ∀ member ∈ group.members, member.name ≠ MemberName.build) :
    group.nestedBuilder.function? MemberName.build =
      some (group.buildFunction.implementation group.buildBody) := by
  have hnone : (group.members.map fun member =>
      (group.setter member).implementation member.setterBody).find?
        (·.name == MemberName.build) = none := by
    rw [List.find?_eq_none]
    intro f hf
    obtain ⟨member, hm, rfl⟩ := List.mem_map.mp hf
    simpa using hb member hm
  rw [ClassSpec.function?, nestedBuilder_functions, List.find?_append, hnone]
  rfl

theorem argumentsOf?_buildBody :
    RecordBuilder.argumentsOf? group.buildBody = some (group.members.map Member.argument) := by
  by_cases hm : group.members = []
  · rw [group.buildBody_eq_singleton hm, hm]
    rfl
  · rw [group.buildBody_eq_construct hm]
    rfl

/-- The fresh builder of a well-named group. -/
theorem ofTriad_ofGroup (hw : group.WellNamed) (kind : TriadKind) (doc : String) :
    RecordBuilder.ofTriad (.ofGroup kind group doc) =
      .ok (group.store.builder (group.members.filterMap Member.delegate?) []) := by
  have hnested : (Triad.ofGroup kind group doc).defaultImpl.nested? MemberName.nestedBuilder =
      some group.nestedBuilder := rfl
  have hread : RecordBuilder.readArguments group.nestedBuilder (group.members.map Member.argument)
      ([], []) = .ok (group.store.properties.map (Store.slot []),
        group.members.filterMap Member.delegate?) :=
    readArguments_members (store_names_nodup hw) fun d hd => contractOf?_nestedBuilder hw hd
  have hoverloads : RecordBuilder.overloadsOf (Triad.ofGroup kind group doc).builder.functions =
      _ := overloadsOf_contract
  simp only [RecordBuilder.ofTriad, hnested, function?_build hw.build, Function.implementation_body,
    argumentsOf?_buildBody, hread, settersOf_nestedBuilder, hoverloads]
  rfl

end PropertyGroup

namespace FamilyStore

/-- A store whose groups have distinct names. -/
structure Distinct (store : FamilyStore) : Prop where
  style : (store.style.properties.map Property.name).Nodup
  colors : (store.colors.properties.map Property.name).Nodup
  dimensions : (store.dimensions.properties.map Property.name).Nodup

/-- The generated builder of a family, after what was set. -/
def builder (store : FamilyStore) (delegates : List DelegateSlot) (log : FamilyLog) :
    StyleBuilder where
  style := store.style.builder delegates log.style
  colors := store.colors.builder [] log.colors
  dimensions := store.dimensions.builder [] log.dimensions

end FamilyStore

theorem properties_of_flat (properties : List Property) (delegates : List Delegate) :
    (properties.map Member.flat ++ delegates.map Member.delegate).filterMap Member.property? =
      properties := by
  simp [Function.comp_def, Member.property?]

/-- The three groups of a schema make up its store. -/
theorem group_stores (schema : Schema) :
    (styleGroup schema).store = (FamilyStore.ofSchema schema).style ∧
      (colorsGroup schema).store = (FamilyStore.ofSchema schema).colors ∧
      (dimensionsGroup schema).store = (FamilyStore.ofSchema schema).dimensions := by
  have hstyle : (styleGroup schema).store.properties = schema.styleProperties :=
    properties_of_flat schema.styleProperties
      [⟨MemberName.colors, _, _, colorsDoc⟩, ⟨MemberName.dimensions, _, _, dimensionsDoc⟩]
  have hcolors := properties_of_flat schema.colorProperties []
  have hdimensions := properties_of_flat schema.dimensionProperties []
  rw [List.map_nil, List.append_nil] at hcolors hdimensions
  refine ⟨?_, ?_, ?_⟩
  · change Store.mk _ (styleGroup schema).store.properties = _
    rw [hstyle]
    simp [FamilyStore.ofSchema, Schema.styleProperties, Properties.list, Category.styleOrder,
      Properties.names, styleGroup, StyleNames.ofBase]
  · change Store.mk _ ((schema.colorProperties.map Member.flat).filterMap Member.property?) = _
    rw [hcolors]
    simp [FamilyStore.ofSchema, Schema.colorProperties, Properties.list, Properties.names,
      colorsGroup, StyleNames.ofBase]
  · change Store.mk _ ((schema.dimensionProperties.map Member.flat).filterMap Member.property?) = _
    rw [hdimensions]
    simp [FamilyStore.ofSchema, Schema.dimensionProperties, Properties.list, Properties.names,
      dimensionsGroup, StyleNames.ofBase]

/-- What the style delegates, as the interpreter reads it. -/
def styleDelegates (schema : Schema) : List DelegateSlot :=
  [⟨MemberName.colors, (colorsGroup schema).result⟩,
    ⟨MemberName.dimensions, (dimensionsGroup schema).result⟩]

theorem delegates_styleGroup (schema : Schema) :
    (styleGroup schema).members.filterMap Member.delegate? = styleDelegates schema := by
  simp [styleGroup, styleDelegates, colorsGroup, dimensionsGroup, Function.comp_def,
    Member.delegate?]

theorem ofTriad_flat {group : PropertyGroup} (hw : group.WellNamed) {properties : List Property}
    (hm : group.members = properties.map .flat) (kind : TriadKind) (doc : String) :
    RecordBuilder.ofTriad (.ofGroup kind group doc) = .ok (group.store.builder [] []) := by
  have hnone : group.members.filterMap Member.delegate? = [] := by
    simp [hm, Function.comp_def, Member.delegate?]
  rw [PropertyGroup.ofTriad_ofGroup hw, hnone]

section
variable {schema : Schema} (h : schema.WellNamed)
include h

theorem ofSchema_distinct : (FamilyStore.ofSchema schema).Distinct := by
  obtain ⟨hstyle, hcolors, hdimensions⟩ := group_stores schema
  refine ⟨?_, ?_, ?_⟩
  · rw [← hstyle]
    exact PropertyGroup.store_names_nodup (styleGroup_wellNamed h)
  · rw [← hcolors]
    exact PropertyGroup.store_names_nodup (holds_colors h).wellNamed
  · rw [← hdimensions]
    exact PropertyGroup.store_names_nodup (holds_dimensions h).wellNamed

/-- The interpreter reads the fresh builder of the store from the family. -/
theorem ofArtifacts_assemble :
    StyleBuilder.ofArtifacts (assemble schema) =
      .ok ((FamilyStore.ofSchema schema).builder (styleDelegates schema) {}) := by
  obtain ⟨hstyle, hcolors, hdimensions⟩ := group_stores schema
  have hs : RecordBuilder.ofTriad (assemble schema).style = _ :=
    PropertyGroup.ofTriad_ofGroup (styleGroup_wellNamed h) .style styleDoc
  have hc : RecordBuilder.ofTriad (assemble schema).colors = _ :=
    ofTriad_flat (holds_colors h).wellNamed rfl .colors colorsDoc
  have hd : RecordBuilder.ofTriad (assemble schema).dimensions = _ :=
    ofTriad_flat (holds_dimensions h).wellNamed rfl .dimensions dimensionsDoc
  rw [delegates_styleGroup, hstyle] at hs
  rw [hcolors] at hc
  rw [hdimensions] at hd
  have hcolor : StyleBuilder.delegate ((FamilyStore.ofSchema schema).style.builder
      (styleDelegates schema) []) MemberName.colors (assemble schema).colors = _ :=
    (if_pos rfl).trans hc
  have hdimension : StyleBuilder.delegate ((FamilyStore.ofSchema schema).style.builder
      (styleDelegates schema) []) MemberName.dimensions (assemble schema).dimensions = _ :=
    (if_pos rfl).trans hd
  rw [StyleBuilder.ofArtifacts, hs]
  change (StyleBuilder.delegate _ _ _ >>= _) = _
  rw [hcolor]
  change (StyleBuilder.delegate _ _ _ >>= _) = _
  rw [hdimension]
  rfl

end

end StyleFamily
