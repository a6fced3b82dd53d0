import StyleFamily.Proofs.Family.Resolution

/-!
# Triads of well-named groups

A family whose declarations have distinct names and that holds the triad of a well-named group
types the group's interface, its builder's interface and its default implementation, as long as it
also holds the triads of the groups that the members delegate to.
-/
namespace StyleFamily

/-- The property of the default implementation that holds a member. -/
def Member.override (member : Member) : PropertySpec :=
  { name := member.name, type := member.type, overrides := true }

namespace PropertyGroup

theorem nestedBuilder_fields (group : PropertyGroup) :
    group.nestedBuilder.fields = group.members.map Member.field :=
  List.nil_append _

theorem defaultImplementation_fields (group : PropertyGroup) :
    group.defaultImplementation.fields = group.members.map Member.override :=
  List.append_nil _

/-- The nested builder has one field for each member. -/
theorem WellNamed.field {group : PropertyGroup} (hw : group.WellNamed) {member : Member}
    (hm : member ∈ group.members) :
    OnlyAt PropertySpec.name group.nestedBuilder.fields member.field.name member.field := by
  rw [nestedBuilder_fields]
  refine onlyAt_of_nodup ?_ (List.mem_map_of_mem hm)
  rw [List.map_map]
  exact hw.fields

/-- The default implementation has one property for each member. -/
theorem WellNamed.override {group : PropertyGroup} (hw : group.WellNamed) {member : Member}
    (hm : member ∈ group.members) :
    OnlyAt PropertySpec.name (group.members.map Member.override) member.name member.override := by
  have hn : ((group.members.map Member.override).map PropertySpec.name).Nodup := by
    rw [List.map_map]
    exact hw.members
  exact onlyAt_of_nodup hn (List.mem_map_of_mem hm)

end PropertyGroup

namespace Artifacts
variable {artifacts : Artifacts}

/-- The family holds the triad of a well-named group. -/
structure Holds (artifacts : Artifacts) (group : PropertyGroup) : Prop where
  wellNamed : group.WellNamed
  triad : ∃ kind doc, Triad.ofGroup kind group doc ∈ artifacts.triads

/-- Whatever the group delegates is built by a group of the family. -/
def Delegates (artifacts : Artifacts) (group : PropertyGroup) : Prop :=
  ∀ d, Member.delegate d ∈ group.members →
    ∃ other, artifacts.Holds other ∧ other.result = d.contract ∧ other.builder = d.builder

theorem mem_declarations {triad : Triad} (h : triad ∈ artifacts.triads) :
    ∀ d ∈ triad.declarations, d ∈ artifacts.declarations := by
  intro d hd
  simp only [triads, List.mem_cons, List.not_mem_nil, or_false] at h
  simp only [declarations, List.mem_append]
  rcases h with rfl | rfl | rfl
  · exact .inl (.inl hd)
  · exact .inl (.inr hd)
  · exact .inr hd

section
variable (hn : (artifacts.declarations.map Declaration.name).Nodup)
include hn

theorem resolves_of_mem {d : Declaration} (hd : d ∈ artifacts.declarations) :
    artifacts.Resolves d.name d :=
  onlyAt_of_nodup hn hd

theorem resolves_contract {triad : Triad} (h : triad ∈ artifacts.triads) :
    artifacts.Resolves triad.contract.name (.ofInterface triad.contract) :=
  resolves_of_mem hn (d := .ofInterface triad.contract)
    (mem_declarations h _ (by simp [Triad.declarations]))

theorem resolves_builder {triad : Triad} (h : triad ∈ artifacts.triads) :
    artifacts.Resolves triad.builder.name (.ofInterface triad.builder) :=
  resolves_of_mem hn (d := .ofInterface triad.builder)
    (mem_declarations h _ (by simp [Triad.declarations]))

theorem resolves_defaultImpl {triad : Triad} (h : triad ∈ artifacts.triads) :
    artifacts.Resolves triad.defaultImpl.name (.ofClass triad.defaultImpl) :=
  resolves_of_mem hn (d := .ofClass triad.defaultImpl)
    (mem_declarations h _ (by simp [Triad.declarations]))

variable {group : PropertyGroup}

theorem defines_result (h : artifacts.Holds group) : artifacts.Defines (.named group.result) := by
  obtain ⟨_, kind, doc, ht⟩ := h
  intro name hm
  obtain rfl := List.mem_singleton.mp hm
  exact ⟨_, resolves_contract hn ht⟩

theorem defines_builder (h : artifacts.Holds group) :
    artifacts.Defines (.named group.builder) := by
  obtain ⟨_, kind, doc, ht⟩ := h
  intro name hm
  obtain rfl := List.mem_singleton.mp hm
  exact ⟨_, resolves_builder hn ht⟩

/-- The companion's factory makes a group's builder without arguments. -/
theorem makes_builder (h : artifacts.Holds group) :
    artifacts.Makes group.result (.named group.builder) := by
  obtain ⟨_, kind, doc, ht⟩ := h
  refine ⟨_, [builderFactory kind group], builderFactory kind group, resolves_contract hn ht,
    rfl, ?_, ?_, rfl⟩
  · simp [OnlyAt, builderFactory]
  · intro p hp
    rw [builderFactory] at hp
    by_cases hk : kind = .style
    · simp only [hk, ↓reduceIte, List.mem_singleton] at hp
      rw [hp]
      rfl
    · simp [hk] at hp

/-- A group's builder builds the group's result. -/
theorem builds_result (h : artifacts.Holds group) :
    artifacts.Builds (.named group.builder) (.named group.result) := by
  obtain ⟨hw, kind, doc, ht⟩ := h
  refine ⟨group.builder, group.contract,
    { group.buildFunction with doc := some ("Returns [" ++ group.result ++ "]") }, rfl,
    resolves_builder hn ht, ?_, rfl, rfl⟩
  have hs : group.setters.filter (·.name = MemberName.build) = [] := by
    rw [List.filter_eq_nil_iff]
    intro f hf
    simpa using PropertyGroup.name_of_mem_setters hw hf
  rw [OnlyAt, PropertyGroup.contract, List.filter_append, hs]
  simp [PropertyGroup.buildFunction]

end

/-- The nested builder overrides every setter, and `build`. -/
theorem nestedBuilder_implements {group : PropertyGroup} (hw : group.WellNamed) :
    group.nestedBuilder.Implements group.contract := by
  refine ⟨fun p hp => absurd hp List.not_mem_nil, ?_⟩
  have hone : ∀ {f : Function} {body : Body},
      f.implementation body ∈ group.nestedBuilder.functions →
      OnlyAt Function.signature group.nestedBuilder.functions f.signature (f.implementation body) :=
    fun hm => onlyAt_of_nodup (PropertyGroup.nestedBuilder_functions_nodup hw) hm
  rw [group.nestedBuilder_functions] at hone ⊢
  intro f hf ha
  rcases List.mem_append.mp hf with hs | hbuild
  · obtain ⟨member, hm, rfl | ho⟩ := PropertyGroup.mem_setters.mp hs
    · refine ⟨(group.setter member).implementation member.setterBody, hone ?_, rfl, rfl⟩
      exact List.mem_append_left _ (List.mem_map_of_mem hm)
    · have hnone : f ∈ (group.overload member).filter Function.isAbstract :=
        List.mem_filter.mpr ⟨ho, ha⟩
      rw [group.filter_isAbstract_overload] at hnone
      exact absurd hnone List.not_mem_nil
  · obtain rfl := List.mem_singleton.mp hbuild
    refine ⟨group.buildFunction.implementation group.buildBody, ?_, rfl, rfl⟩
    exact hone (List.mem_append_right _ (List.mem_singleton.mpr rfl))

theorem defines_value (type : ValueType) : artifacts.Defines (.value type) := by
  intro name hm
  simp [TypeRef.references] at hm

theorem defines_optional {type : TypeRef} (h : artifacts.Defines type) :
    artifacts.Defines (.optional type) := h

theorem defines_configure {type : TypeRef} (h : artifacts.Defines type) :
    artifacts.Defines (.configure type) := by
  intro name hm
  exact h name (by simpa [TypeRef.configure, TypeRef.references] using hm)

/-- The setter of a member finds the member's field in the nested builder, and its own parameter. -/
theorem setterBodyTyped {group : PropertyGroup} (hw : group.WellNamed) {site : Site}
    (hf : site.fields = group.nestedBuilder.fields) (hs : site.supertypes = [group.builder])
    {member : Member} (hm : member ∈ group.members) :
    artifacts.BodyTyped site ((group.setter member).implementation member.setterBody)
      member.setterBody := by
  have hsuper : IsSupertype site.supertypes (group.setter member).returns :=
    ⟨group.builder, by simp [hs], group.setter_returns member⟩
  have hfield : OnlyAt PropertySpec.name site.fields member.field.name member.field := by
    rw [hf]
    exact hw.field hm
  cases member with
  | flat p =>
    refine ⟨hsuper, .value p.category.valueType, ⟨_, hfield, rfl, rfl⟩, ?_⟩
    exact ⟨⟨p.name, .value p.category.valueType, false⟩,
      by simp [OnlyAt, PropertyGroup.setter], rfl⟩
  | delegate d =>
    refine ⟨hsuper, .named d.builder, ⟨_, hfield, rfl, rfl⟩, ?_⟩
    exact ⟨⟨MemberName.configure, .configure (.named d.builder), false⟩,
      by simp [OnlyAt, PropertyGroup.setter], rfl⟩

section
variable {group : PropertyGroup} (hn : (artifacts.declarations.map Declaration.name).Nodup)
  (hd : artifacts.Delegates group)
include hn hd

/-- All that a delegated member refers to. -/
theorem delegateTyped {d : Delegate} (hm : .delegate d ∈ group.members) :
    artifacts.Defines (.named d.contract) ∧ artifacts.Defines (.named d.builder) ∧
      artifacts.Makes d.contract (.named d.builder) ∧
      artifacts.Builds (.named d.builder) (.named d.contract) := by
  obtain ⟨other, ho, hr, hb⟩ := hd d hm
  rw [← hr, ← hb]
  exact ⟨defines_result hn ho, defines_builder hn ho, makes_builder hn ho, builds_result hn ho⟩

theorem defines_memberType {member : Member} (hm : member ∈ group.members) :
    artifacts.Defines member.type := by
  cases member with
  | flat p => exact defines_value _
  | delegate d => exact (delegateTyped hn hd hm).1

/-- The field of a member starts with a value of its own type. -/
theorem fieldTyped {member : Member} (hm : member ∈ group.members) :
    artifacts.PropertyTyped member.field := by
  cases member with
  | flat p =>
    refine ⟨defines_optional (defines_value _), ?_⟩
    intro initializer hi
    obtain rfl : Initializer.null = initializer := Option.some.inj hi
    rfl
  | delegate d =>
    obtain ⟨_, hb, hmakes, _⟩ := delegateTyped hn hd hm
    refine ⟨hb, ?_⟩
    intro initializer hi
    obtain rfl : Initializer.newBuilder d.contract = initializer := Option.some.inj hi
    exact hmakes

theorem setterHeadTyped (h : artifacts.Holds group) {member : Member}
    (hm : member ∈ group.members) : artifacts.HeadTyped (group.setter member) := by
  have hb := defines_builder hn h
  cases member with
  | flat p =>
    refine ⟨?_, by simp [PropertyGroup.setter], by simp [PropertyGroup.setter]⟩
    simp [Function.types, PropertyGroup.setter, hb, defines_value]
  | delegate d =>
    have hc : artifacts.Defines (.configure (.named d.builder)) :=
      defines_configure (delegateTyped hn hd hm).2.1
    refine ⟨?_, by simp [PropertyGroup.setter], by simp [PropertyGroup.setter]⟩
    simp [Function.types, PropertyGroup.setter, hb, hc]

/-- The argument of a member fits the member's property of the result. -/
theorem argumentTyped (hw : group.WellNamed) {member : Member} (hm : member ∈ group.members) :
    artifacts.ArgumentTyped group.nestedBuilder.fields member.type member.argument := by
  have hfield := hw.field hm
  cases member with
  | flat p => exact ⟨rfl, Category.type_defaultValue _, _, hfield, rfl⟩
  | delegate d => exact ⟨_, hfield, (delegateTyped hn hd hm).2.2.2⟩

end

theorem HeadTyped.implementation {function : Function} (h : artifacts.HeadTyped function)
    (body : Body) : artifacts.HeadTyped (function.implementation body) :=
  ⟨h.types, h.parameters, h.defaults⟩

/-- A function without parameters is typed in its head as soon as its result is. -/
theorem headTyped_of_parameters_nil {function : Function} (hp : function.parameters = [])
    (hr : artifacts.Defines function.returns) : artifacts.HeadTyped function := by
  refine ⟨?_, by simp [hp], by simp [hp]⟩
  simpa [Function.types, hp] using hr

/-- An overload hands its color to the setter of the same property. -/
theorem overloadTyped {group : PropertyGroup} {triad : Triad}
    (hn : (artifacts.declarations.map Declaration.name).Nodup) (h : artifacts.Holds group)
    {member : Member} (hm : member ∈ group.members) {function : Function}
    (hf : function ∈ group.overload member) :
    artifacts.FunctionTyped { triad, functions := group.contract.functions } function := by
  obtain ⟨p, rfl, hc, _, hp, hr, hb⟩ := group.mem_overload hf
  have hmem : group.setter (.flat p) ∈ group.contract.functions :=
    List.mem_append_left _ (PropertyGroup.mem_setters.mpr ⟨.flat p, hm, .inl rfl⟩)
  have hsig : (group.setter (.flat p)).signature = (p.name, [.value .interactiveColor]) := by
    simp [Function.signature, PropertyGroup.setter, hc, Category.valueType]
  have honly := onlyAt_of_nodup (PropertyGroup.contract_functions_nodup h.wellNamed) hmem
  rw [hsig] at honly
  refine ⟨⟨?_, by simp [hp], by simp [hp]⟩, ?_⟩
  · simp [Function.types, hp, hr, defines_builder hn h, defines_value]
  · rw [hb]
    refine ⟨⟨⟨p.name, .value .color, false⟩, by simp [OnlyAt, hp], rfl⟩, _, honly, ?_⟩
    rw [hr, group.setter_returns]

theorem builderTyped {group : PropertyGroup} (triad : Triad)
    (hn : (artifacts.declarations.map Declaration.name).Nodup) (h : artifacts.Holds group)
    (hd : artifacts.Delegates group) : artifacts.InterfaceTyped triad group.contract where
  propertyNames := List.nodup_nil
  signatures := PropertyGroup.contract_functions_nodup h.wellNamed
  companionSignatures := List.nodup_nil
  supertypes := by
    intro type hm
    exact absurd hm List.not_mem_nil
  properties := by
    intro p hp
    exact absurd hp List.not_mem_nil
  functions := by
    intro f hf
    rcases List.mem_append.mp hf with hs | hbuild
    · obtain ⟨member, hm, rfl | ho⟩ := PropertyGroup.mem_setters.mp hs
      · refine ⟨setterHeadTyped hn hd h hm, ?_⟩
        rw [group.setter_body]
        trivial
      · exact overloadTyped hn h hm ho
    · obtain rfl := List.mem_singleton.mp hbuild
      exact ⟨headTyped_of_parameters_nil rfl (defines_result hn h), trivial⟩
  companion := by
    intro f hf
    exact absurd hf List.not_mem_nil

section
variable {group : PropertyGroup} {kind : TriadKind} {doc : String}
  (hn : (artifacts.declarations.map Declaration.name).Nodup)
  (ht : Triad.ofGroup kind group doc ∈ artifacts.triads)
include hn ht

/-- The factory makes the one class nested in the group's default implementation. -/
theorem factoryTyped (h : artifacts.Holds group) (functions : List Function) :
    artifacts.FunctionTyped { triad := .ofGroup kind group doc, functions }
      (builderFactory kind group) := by
  have hb := defines_builder hn h
  have hany : artifacts.Defines (.optional .any) := by simp [Defines, TypeRef.references]
  refine ⟨⟨?_, ?_, ?_⟩, ?_⟩
  · by_cases hk : kind = .style <;>
      simp [Function.types, builderFactory, hk, hb, hany, Parameter.nullable]
  · by_cases hk : kind = .style <;> simp [builderFactory, hk]
  · by_cases hk : kind = .style <;>
      simp [builderFactory, hk, Parameter.nullable, TypeRef.isOptional]
  · exact ⟨group.nestedBuilder, rfl, resolves_defaultImpl hn ht, rfl, rfl, rfl,
      group.builder, List.mem_singleton.mpr rfl, rfl⟩

theorem contractTyped (h : artifacts.Holds group) (hd : artifacts.Delegates group) :
    artifacts.InterfaceTyped (.ofGroup kind group doc) (Triad.ofGroup kind group doc).contract where
  propertyNames := by
    simpa [Triad.ofGroup, Function.comp_def] using h.wellNamed.members
  signatures := List.nodup_nil
  companionSignatures := List.nodup_singleton _
  supertypes := by
    intro type hm
    by_cases hk : kind = .style
    · obtain rfl : type = .styleBase := by simpa [Triad.ofGroup, hk] using hm
      simp [Defines, TypeRef.references]
    · simp [Triad.ofGroup, hk] at hm
  properties := by
    intro p hp
    obtain ⟨member, hm, rfl⟩ := List.mem_map.mp hp
    exact ⟨defines_memberType hn hd hm, by simp⟩
  functions := by
    intro f hf
    exact absurd hf List.not_mem_nil
  companion := by
    intro f hf
    obtain rfl := List.mem_singleton.mp hf
    exact ⟨rfl, factoryTyped hn ht h _⟩

theorem defaultImplementationTyped (h : artifacts.Holds group)
    (hd : artifacts.Delegates group) :
    artifacts.ClassTyped (.ofGroup kind group doc) group.defaultImplementation where
  fieldNames := by
    rw [group.defaultImplementation_fields, List.map_map]
    exact h.wellNamed.members
  signatures := List.nodup_nil
  supertypes := by
    intro name hm
    obtain rfl := List.mem_singleton.mp hm
    refine ⟨_, resolves_contract hn ht, ?_, fun f hf => absurd hf List.not_mem_nil⟩
    intro p hp
    obtain ⟨member, hm, rfl⟩ := List.mem_map.mp hp
    refine ⟨member.override, ?_, rfl, rfl⟩
    rw [group.defaultImplementation_fields]
    exact h.wellNamed.override hm
  fields := by
    intro p hp
    rw [group.defaultImplementation_fields] at hp
    obtain ⟨member, hm, rfl⟩ := List.mem_map.mp hp
    exact ⟨defines_memberType hn hd hm, by simp [Member.override]⟩
  initialized := by
    intro p hp
    exact absurd hp List.not_mem_nil
  functions := by
    intro f hf
    exact absurd hf List.not_mem_nil

/-- The builder makes the group's default implementation from one argument a member, or takes its
only instance. -/
theorem buildBodyTyped (h : artifacts.Holds group) (hd : artifacts.Delegates group)
    {site : Site} (hs : site.triad = .ofGroup kind group doc)
    (hf : site.fields = group.nestedBuilder.fields) :
    artifacts.BodyTyped site (group.buildFunction.implementation group.buildBody)
      group.buildBody := by
  have hsuper : IsSupertype group.defaultImplementation.supertypes (.named group.result) :=
    ⟨group.result, List.mem_singleton.mpr rfl, rfl⟩
  have hresolves : artifacts.Resolves group.defaultImpl (.ofClass group.defaultImplementation) :=
    resolves_defaultImpl hn ht
  by_cases hm : group.members = []
  · rw [group.buildBody_eq_singleton hm]
    refine ⟨⟨?_, ?_, ?_⟩, ?_⟩ <;> rw [hs]
    · exact hresolves
    · simp [Triad.ofGroup, PropertyGroup.defaultImplementation, hm]
    · exact hsuper
    · simp [Triad.ofGroup, PropertyGroup.defaultImplementation, hm]
  · rw [group.buildBody_eq_construct hm]
    refine ⟨⟨?_, ?_, ?_⟩, ?_, ?_⟩ <;> rw [hs]
    · exact hresolves
    · simp [Triad.ofGroup, PropertyGroup.defaultImplementation, hm]
    · exact hsuper
    · simp [Triad.ofGroup, PropertyGroup.defaultImplementation]
    · intro argument ha
      obtain ⟨member, hm, rfl⟩ := List.mem_map.mp ha
      refine ⟨member.override, ?_, hf ▸ argumentTyped hn hd h.wellNamed hm⟩
      rw [PropertyGroup.argument_property]
      exact h.wellNamed.override hm

theorem nestedBuilderTyped (h : artifacts.Holds group) (hd : artifacts.Delegates group) :
    artifacts.ClassTyped (.ofGroup kind group doc) group.nestedBuilder where
  fieldNames := by
    rw [group.nestedBuilder_fields, List.map_map]
    exact h.wellNamed.fields
  signatures := PropertyGroup.nestedBuilder_functions_nodup h.wellNamed
  supertypes := by
    intro name hm
    obtain rfl := List.mem_singleton.mp hm
    exact ⟨_, resolves_builder hn ht, nestedBuilder_implements h.wellNamed⟩
  fields := by
    intro p hp
    rw [group.nestedBuilder_fields] at hp
    obtain ⟨member, hm, rfl⟩ := List.mem_map.mp hp
    exact fieldTyped hn hd hm
  initialized := by
    intro p hp
    obtain ⟨member, hm, rfl⟩ := List.mem_map.mp hp
    cases member <;> rfl
  functions := by
    intro f hf
    rw [group.nestedBuilder_functions] at hf
    rcases List.mem_append.mp hf with hs | hbuild
    · obtain ⟨member, hm, rfl⟩ := List.mem_map.mp hs
      refine ⟨?_, (setterHeadTyped hn hd h hm).implementation _,
        setterBodyTyped h.wellNamed rfl rfl hm⟩
      cases member <;> rfl
    · obtain rfl := List.mem_singleton.mp hbuild
      refine ⟨?_, headTyped_of_parameters_nil rfl (defines_result hn h),
        buildBodyTyped hn ht h hd rfl rfl⟩
      exact PropertyGroup.buildBody_not_abstract group

end

end Artifacts
end StyleFamily
