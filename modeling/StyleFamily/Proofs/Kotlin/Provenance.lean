import StyleFamily.Proofs.Kotlin.SharedNames
import StyleFamily.Proofs.Kotlin.Vocabulary

/-!
# Where the words of a unit come from

Every word of a unit is one that all units may use, the name of one of the unit's declarations, the
name of a member that a property or the builder pattern gives, or a component of the package.
-/
namespace StyleFamily
namespace Kotlin

/-- The words that do not depend on the component. -/
def fixedWords : List String :=
  ["package", "import", "interface", "companion", "object", "private", "data", "class", "override",
    "fun", "val", "var", "null", "apply", "this", "builder", "build", "Any", "Unit", "Style",
    "Immutable", "ProvidableCompositionLocal", "compositionLocalOf", "structuralEqualityPolicy",
    "Shape", "ShadowAppearance", "TextStyle", "Float", "InteractiveColor", "Color", "Dp",
    "RectangleShape", "Default", "0", "5f", "Black", "asInteractive", "8", "dp"] ++
    symbolPackages.flatMap (Text.splitAt '.')

/-- The names of members that every family has. -/
def fixedMembers : List String :=
  [MemberName.build, MemberName.factory, MemberName.colors, MemberName.dimensions,
    MemberName.configure, MemberName.builderField MemberName.colors,
    MemberName.builderField MemberName.dimensions, "receiver"]

/-- Where the words of a component's unit come from. -/
def Word.ComesFrom (schema : Schema) (package : String) : Word → Prop
  | .fixed text => text ∈ fixedWords
  | .declared name => name ∈ declaredNames (assemble schema) ∨ name = MemberName.nestedBuilder
  | .member name => (∃ p ∈ schema.occurrences, p.name = name) ∨ name ∈ fixedMembers
  | .segment name => name ∈ Text.splitAt '.' package

/-- Words that have their origin in the component or the package. -/
def Traced (schema : Schema) (package : String) (ws : List Word) : Prop :=
  ∀ word ∈ ws, word.ComesFrom schema package

section
variable {schema : Schema} {package : String}

@[simp] theorem traced_nil : Traced schema package [] := List.forall_mem_nil _

@[simp] theorem traced_cons {word : Word} {ws : List Word} :
    Traced schema package (word :: ws) ↔ word.ComesFrom schema package ∧ Traced schema package ws :=
  List.forall_mem_cons

@[simp] theorem traced_append {first rest : List Word} :
    Traced schema package (first ++ rest) ↔
      Traced schema package first ∧ Traced schema package rest :=
  List.forall_mem_append

theorem traced_flatMap {α : Type} {items : List α} {ws : α → List Word}
    (h : ∀ item ∈ items, Traced schema package (ws item)) :
    Traced schema package (items.flatMap ws) := by
  intro word hw
  obtain ⟨item, hi, hw⟩ := List.mem_flatMap.mp hw
  exact h item hi word hw

theorem traced_fixed {texts : List String} (h : ∀ text ∈ texts, text ∈ fixedWords) :
    Traced schema package (texts.map .fixed) := by
  intro word hw
  obtain ⟨text, ht, rfl⟩ := List.mem_map.mp hw
  exact h text ht

theorem comesFrom_fixed {text : String} (h : text ∈ fixedWords) :
    (Word.fixed text).ComesFrom schema package := h

theorem comesFrom_fixedMember {name : String} (h : name ∈ fixedMembers) :
    (Word.member name).ComesFrom schema package := .inr h

end

section
variable {schema : Schema} {package : String} {group : PropertyGroup} (h : Related schema group)
include h

section
variable {member : Member} (hm : member ∈ group.members)
include hm

theorem traced_type : Traced schema package (typeWords member.type) := by
  cases member with
  | flat p =>
    have hfixed : ∀ category : Category, typeName category.valueType ∈ fixedWords := by
      intro category
      cases category <;> decide
    exact List.forall_mem_singleton.mpr (hfixed p.category)
  | delegate d => exact List.forall_mem_singleton.mpr (.inl (h.delegate d hm).2.1)

theorem comesFrom_name : (Word.member member.name).ComesFrom schema package := by
  cases member with
  | flat p => exact .inl ⟨p, h.flat p hm, rfl⟩
  | delegate d =>
    have hfixed : ∀ name ∈ [MemberName.colors, MemberName.dimensions], name ∈ fixedMembers := by
      decide
    exact comesFrom_fixedMember (hfixed _ (h.delegate d hm).1)

theorem comesFrom_fieldName : (Word.member member.field.name).ComesFrom schema package := by
  cases member with
  | flat p => exact comesFrom_name h hm
  | delegate d =>
    have hfixed : ∀ name ∈ [MemberName.colors, MemberName.dimensions],
        MemberName.builderField name ∈ fixedMembers := by decide
    exact comesFrom_fixedMember (hfixed _ (h.delegate d hm).1)

theorem traced_field : Traced schema package (propertyWords member.field) := by
  have hname : (Word.member member.field.name).ComesFrom schema package :=
    comesFrom_fieldName h hm
  cases member with
  | flat p =>
    have hwords : propertyWords (Member.flat p).field =
        [Word.fixed "private", .fixed "var", .member p.name] ++ typeWords (Member.flat p).type ++
          [Word.fixed "null"] := rfl
    rw [hwords]
    simp only [traced_append, traced_cons, traced_nil, and_true]
    exact ⟨⟨⟨comesFrom_fixed (by decide), comesFrom_fixed (by decide), hname⟩, traced_type h hm⟩,
      comesFrom_fixed (by decide)⟩
  | delegate d =>
    have hwords : propertyWords (Member.delegate d).field =
        [.fixed "private", .fixed "val", .member (MemberName.builderField d.member),
          .declared d.builder, .declared d.contract, .fixed MemberName.factory] := rfl
    obtain ⟨_, hcontract, hbuilder⟩ := h.delegate d hm
    rw [hwords]
    simp only [traced_cons, traced_nil, and_true]
    exact ⟨comesFrom_fixed (by decide), comesFrom_fixed (by decide), hname, .inl hbuilder,
      .inl hcontract, comesFrom_fixed (by decide)⟩

theorem traced_setterHead : Traced schema package (headWords (group.setter member)) := by
  have hname : (Word.member member.name).ComesFrom schema package := comesFrom_name h hm
  cases member with
  | flat p =>
    have hwords : headWords (group.setter (.flat p)) =
        [Word.fixed "fun", .member p.name, .member p.name] ++ typeWords (Member.flat p).type ++
          [Word.declared group.builder] := by
      simp [headWords, functionModifiers, PropertyGroup.setter, parameterWords, Member.type,
        typeWords]
    rw [hwords]
    simp only [traced_append, traced_cons, traced_nil, and_true]
    exact ⟨⟨⟨comesFrom_fixed (by decide), hname, hname⟩, traced_type h hm⟩, .inl h.builder⟩
  | delegate d =>
    have hwords : headWords (group.setter (.delegate d)) =
        [.fixed "fun", .member d.member, .member MemberName.configure, .declared d.builder,
          .fixed "Unit", .declared group.builder] := rfl
    rw [hwords]
    simp only [traced_cons, traced_nil, and_true]
    exact ⟨comesFrom_fixed (by decide), hname, comesFrom_fixedMember (by decide),
      .inl (h.delegate d hm).2.2, comesFrom_fixed (by decide), .inl h.builder⟩

theorem traced_setter : Traced schema package (functionWords (group.setter member)) := by
  rw [functionWords, group.setter_body, bodyWords, List.append_nil]
  exact traced_setterHead h hm

theorem traced_setterBody : Traced schema package (bodyWords member.setterBody) := by
  have hname : (Word.member member.name).ComesFrom schema package := comesFrom_name h hm
  have hfield : (Word.member member.field.name).ComesFrom schema package :=
    comesFrom_fieldName h hm
  cases member with
  | flat p =>
    simp only [Member.setterBody, bodyWords, traced_cons, traced_nil, and_true]
    exact ⟨comesFrom_fixed (by decide), comesFrom_fixed (by decide), hname, hname⟩
  | delegate d =>
    simp only [Member.setterBody, bodyWords, traced_cons, traced_nil, and_true]
    exact ⟨comesFrom_fixed (by decide), hfield, comesFrom_fixedMember (by decide)⟩

/-- An override has the words of what it overrides and those of its body. -/
theorem traced_implementation : Traced schema package
    (functionWords ((group.setter member).implementation member.setterBody)) := by
  have hwords : functionWords ((group.setter member).implementation member.setterBody) =
      .fixed "override" :: headWords (group.setter member) ++ bodyWords member.setterBody := by
    cases member <;> rfl
  rw [hwords, traced_append, traced_cons]
  exact ⟨⟨comesFrom_fixed (by decide), traced_setterHead h hm⟩, traced_setterBody h hm⟩

theorem traced_overload {function : Function} (hf : function ∈ group.overload member) :
    Traced schema package (functionWords function) := by
  have hname : (Word.member member.name).ComesFrom schema package := comesFrom_name h hm
  cases member with
  | delegate d => simp [PropertyGroup.overload] at hf
  | flat p =>
    rw [PropertyGroup.overload] at hf
    split at hf
    · obtain rfl := List.mem_singleton.mp hf
      have hwords : functionWords
          { name := p.name, doc := some ("Sets [" ++ p.name ++ "] from a plain color")
            returns := .named group.builder, parameters := [⟨p.name, .value .color, false⟩]
            body := .promote p.name p.name } =
          [.fixed "fun", .member p.name, .member p.name, .fixed "Color", .declared group.builder,
            .member p.name, .member p.name, .fixed "asInteractive"] := rfl
      rw [hwords]
      simp only [traced_cons, traced_nil, and_true]
      exact ⟨comesFrom_fixed (by decide), hname, hname, comesFrom_fixed (by decide),
        .inl h.builder, hname, hname, comesFrom_fixed (by decide)⟩
    · simp at hf

theorem traced_argument : Traced schema package (argumentWords member.argument) := by
  have hname : (Word.member member.name).ComesFrom schema package := comesFrom_name h hm
  have hfield : (Word.member member.field.name).ComesFrom schema package :=
    comesFrom_fieldName h hm
  cases member with
  | flat p =>
    have hvalue : ∀ category : Category,
        ∀ text ∈ words (spellValue category.defaultValue), text ∈ fixedWords := by
      intro category
      cases category <;> decide +kernel
    simp only [Member.argument, argumentWords, traced_append, traced_cons, traced_nil, and_true]
    exact ⟨⟨hname, hfield⟩, traced_fixed (hvalue p.category)⟩
  | delegate d =>
    simp only [Member.argument, argumentWords, traced_cons, traced_nil, and_true]
    exact ⟨hname, hfield, comesFrom_fixed (by decide)⟩

end

theorem traced_build :
    Traced schema package (functionWords (group.buildFunction.implementation group.buildBody)) := by
  have hwords : functionWords (group.buildFunction.implementation group.buildBody) =
      [Word.fixed "override", .fixed "fun", .member MemberName.build, .declared group.result] ++
        bodyWords group.buildBody := rfl
  have hbody : Traced schema package (bodyWords group.buildBody) := by
    by_cases hm : group.members = []
    · rw [group.buildBody_eq_singleton hm]
      exact List.forall_mem_singleton.mpr (.inl h.defaultImpl)
    · rw [group.buildBody_eq_construct hm, bodyWords, List.flatMap_map, traced_cons]
      exact ⟨.inl h.defaultImpl, traced_flatMap fun member hm => traced_argument h hm⟩
  rw [hwords]
  simp only [traced_append, traced_cons, traced_nil, and_true]
  exact ⟨⟨comesFrom_fixed (by decide), comesFrom_fixed (by decide),
    comesFrom_fixedMember (by decide), .inl h.result⟩, hbody⟩

theorem traced_factory (kind : TriadKind) :
    Traced schema package (functionWords (builderFactory kind group)) := by
  have hwords : functionWords (builderFactory kind group) =
      [Word.fixed "fun", .member MemberName.factory] ++
        (if kind = .style then [Word.member "receiver", .fixed "Any", .fixed "null"] else []) ++
        [Word.declared group.builder, .declared group.defaultImpl,
          .declared MemberName.nestedBuilder] := by
    cases kind <;> rfl
  have hreceiver : Traced schema package
      (if kind = .style then [Word.member "receiver", .fixed "Any", .fixed "null"] else []) := by
    split
    · simp only [traced_cons, traced_nil, and_true]
      exact ⟨comesFrom_fixedMember (by decide), comesFrom_fixed (by decide),
        comesFrom_fixed (by decide)⟩
    · exact traced_nil
  rw [hwords]
  simp only [traced_append, traced_cons, traced_nil, and_true]
  exact ⟨⟨⟨comesFrom_fixed (by decide), comesFrom_fixedMember (by decide)⟩, hreceiver⟩,
    .inl h.builder, .inl h.defaultImpl, .inr rfl⟩

theorem traced_contract (kind : TriadKind) (doc : String) :
    Traced schema package (interfaceWords (Triad.ofGroup kind group doc).contract) := by
  have hwords : interfaceWords (Triad.ofGroup kind group doc).contract =
      [Word.fixed immutable.name, .fixed "interface", .declared group.result] ++
        (if kind = .style then [Word.fixed "Style"] else []) ++
        (group.members.flatMap fun member =>
          .fixed "val" :: .member member.name :: typeWords member.type) ++
        [Word.fixed "companion", .fixed "object"] ++ functionWords (builderFactory kind group) := by
    cases kind <;> simp [interfaceWords, Triad.ofGroup, List.flatMap_map, propertyWords,
      modifierWords, typeWords]
  have hsupertype : Traced schema package (if kind = .style then [Word.fixed "Style"] else []) := by
    split
    · exact List.forall_mem_singleton.mpr (comesFrom_fixed (by decide))
    · exact traced_nil
  have hmembers : Traced schema package (group.members.flatMap fun member =>
      .fixed "val" :: .member member.name :: typeWords member.type) :=
    traced_flatMap fun member hm => traced_cons.mpr
      ⟨comesFrom_fixed (by decide), traced_cons.mpr ⟨comesFrom_name h hm, traced_type h hm⟩⟩
  rw [hwords]
  simp only [traced_append, traced_cons, traced_nil, and_true]
  exact ⟨⟨⟨⟨⟨comesFrom_fixed (by decide), comesFrom_fixed (by decide), .inl h.result⟩, hsupertype⟩,
    hmembers⟩, comesFrom_fixed (by decide), comesFrom_fixed (by decide)⟩, traced_factory h kind⟩

theorem traced_builder : Traced schema package (interfaceWords group.contract) := by
  have hwords : interfaceWords group.contract =
      [Word.fixed "interface", .declared group.builder] ++ group.setters.flatMap functionWords ++
        [Word.fixed "fun", .member MemberName.build, .declared group.result] := by
    simp [interfaceWords, PropertyGroup.contract, functionWords, headWords, functionModifiers,
      PropertyGroup.buildFunction, typeWords, bodyWords]
  have hsetters : Traced schema package (group.setters.flatMap functionWords) := by
    refine traced_flatMap fun function hf => ?_
    obtain ⟨member, hm, rfl | ho⟩ := PropertyGroup.mem_setters.mp hf
    · exact traced_setter h hm
    · exact traced_overload h hm ho
  rw [hwords]
  simp only [traced_append, traced_cons, traced_nil, and_true]
  exact ⟨⟨⟨comesFrom_fixed (by decide), .inl h.builder⟩, hsetters⟩, comesFrom_fixed (by decide),
    comesFrom_fixedMember (by decide), .inl h.result⟩

theorem traced_nestedBuilder : Traced schema package (classWords group.nestedBuilder) := by
  have hwords : classWords group.nestedBuilder =
      [Word.fixed "class", .declared MemberName.nestedBuilder, .declared group.builder] ++
        ((group.members.map Member.field).flatMap propertyWords ++
          group.nestedBuilder.functions.flatMap functionWords) := by
    simp [PropertyGroup.nestedBuilder, classWords, classModifiers, nestedWords]
  rw [hwords, group.nestedBuilder_functions, List.flatMap_append, List.flatMap_map,
    List.flatMap_map, List.flatMap_singleton]
  simp only [traced_append, traced_cons, traced_nil, and_true]
  exact ⟨⟨comesFrom_fixed (by decide), .inr rfl, .inl h.builder⟩,
    traced_flatMap fun member hm => traced_field h hm,
    traced_flatMap fun member hm => traced_implementation h hm, traced_build h⟩

theorem traced_defaultImplementation :
    Traced schema package (classWords group.defaultImplementation) := by
  have hwords : classWords group.defaultImplementation =
      (classModifiers true group.defaultImplementation.kind).map Word.fixed ++
        [Word.declared group.defaultImpl] ++
        (group.members.flatMap fun member =>
          .fixed "override" :: .fixed "val" :: .member member.name :: typeWords member.type) ++
        [Word.declared group.result] ++ classWords group.nestedBuilder := by
    simp [PropertyGroup.defaultImplementation, classWords, nestedWords, List.flatMap_map,
      propertyWords, modifierWords]
  have hmodifiers : ∀ kind : ClassKind, ∀ text ∈ classModifiers true kind, text ∈ fixedWords := by
    intro kind
    cases kind <;> decide
  have hconstructor : Traced schema package (group.members.flatMap fun member =>
      .fixed "override" :: .fixed "val" :: .member member.name :: typeWords member.type) := by
    refine traced_flatMap fun member hm => ?_
    simp only [traced_cons]
    exact ⟨comesFrom_fixed (by decide), comesFrom_fixed (by decide), comesFrom_name h hm,
      traced_type h hm⟩
  rw [hwords]
  simp only [traced_append, traced_cons, traced_nil, and_true]
  exact ⟨⟨⟨⟨traced_fixed (hmodifiers _), .inl h.defaultImpl⟩, hconstructor⟩, .inl h.result⟩,
    traced_nestedBuilder h⟩

theorem traced_triad (kind : TriadKind) (doc : String) : Traced schema package
    ((Triad.ofGroup kind group doc).declarations.flatMap declarationWords) := by
  have hwords : (Triad.ofGroup kind group doc).declarations.flatMap declarationWords =
      interfaceWords (Triad.ofGroup kind group doc).contract ++
        (interfaceWords group.contract ++ classWords group.defaultImplementation) := by
    simp [Triad.declarations, Triad.ofGroup, declarationWords]
  rw [hwords, traced_append, traced_append]
  exact ⟨traced_contract h kind doc, traced_builder h, traced_defaultImplementation h⟩

end

theorem traced_declarations {schema : Schema} {package : String} :
    Traced schema package ((assemble schema).declarations.flatMap declarationWords) := by
  have hs : Related schema (styleGroup schema) := related_of_mem (by simp)
  have hc : Related schema (colorsGroup schema) := related_of_mem (by simp)
  have hd : Related schema (dimensionsGroup schema) := related_of_mem (by simp)
  rw [Artifacts.declarations, List.flatMap_append, List.flatMap_append, traced_append,
    traced_append]
  exact ⟨⟨traced_triad hs .style styleDoc, traced_triad hc .colors colorsDoc⟩,
    traced_triad hd .dimensions dimensionsDoc⟩

theorem traced_accessor {schema : Schema} {package : String} :
    Traced schema package (accessorWords (assemble schema).accessor) := by
  have hname : (assemble schema).accessor.name ∈ declaredNames (assemble schema) :=
    List.mem_cons_self
  have hstyle : (assemble schema).accessor.style ∈ declaredNames (assemble schema) :=
    List.mem_cons_of_mem _ List.mem_cons_self
  simp only [accessorWords, traced_cons, traced_nil, and_true]
  exact ⟨comesFrom_fixed (by decide), .inl hname, comesFrom_fixed (by decide), .inl hstyle,
    comesFrom_fixed (by decide), comesFrom_fixed (by decide), .inl hstyle,
    comesFrom_fixed (by decide), comesFrom_fixed (by decide)⟩

/-- An import line is made of fixed words and begins no comment. -/
theorem importLine_fixed {schema : Schema} {package line : String}
    (h : line ∈ Imports.lines ⟨unitSymbols (assemble schema)⟩ package) :
    Plain line ∧ ∀ text ∈ words line, text ∈ fixedWords := by
  have himport : Leads "import " ["import"] := by decide
  have hdot : Separates "." [] := by decide
  have hnames : ∀ symbol ∈ fixedSymbols, symbol.name ∈ fixedWords := by decide
  obtain ⟨symbol, hs, _, rfl⟩ := mem_lines.mp h
  obtain ⟨hp, hidentifier⟩ := symbol_wellFormed hs
  have hname : symbol.name ∈ fixedWords := by
    refine forall_unitSymbols hnames (fun category => ?_) hs
    cases category <;> decide
  have hline := Lexes.after himport ((lexes_segments (packageFault?_symbolPackages _ hp)).around hdot
    (Lexes.segment hidentifier))
  have hwords : words ("import " ++ symbol.qualified) =
      "import" :: (Text.splitAt '.' symbol.package ++ [symbol.name]) := by
    have hspelled : Word.spelled ∘ Word.segment = id := rfl
    simpa [Symbol.qualified, hspelled, Word.spelled] using hline.words
  refine ⟨hline.plain, ?_⟩
  rw [hwords, List.forall_mem_cons, List.forall_mem_append, List.forall_mem_singleton]
  exact ⟨by decide, fun segment hm => List.mem_append_right _
    (List.mem_flatMap.mpr ⟨_, hp, hm⟩), hname⟩

/-- The words of a unit come from its component, its package or what all units share. -/
theorem traced_unit (schema : Schema) (package : String) :
    Traced schema package (unitWords (assemble schema) package) := by
  have hsegments : Traced schema package ((Text.splitAt '.' package).map .segment) := by
    intro word hw
    obtain ⟨segment, hs, rfl⟩ := List.mem_map.mp hw
    exact hs
  rw [unitWords, packageWords, traced_append, traced_append, traced_append, traced_cons]
  exact ⟨⟨⟨comesFrom_fixed (by decide), hsegments⟩,
    traced_flatMap fun line hl => traced_fixed (importLine_fixed hl).2⟩, traced_accessor,
    traced_declarations⟩

end Kotlin
end StyleFamily
