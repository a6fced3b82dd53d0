import StyleFamily.Proofs.Kotlin.Fallbacks
import StyleFamily.Proofs.Kotlin.SharedNames

/-!
# Names that a builder takes for its own fields

The default of a member and the first value of a sub-builder begin with a name from outside the
builder: an imported symbol or a declared type. Where a field of the builder is called the same, the
name means the field. The standard lints leave room for that in two of the three builders, and here
it is said for which components.
-/
namespace StyleFamily
namespace Kotlin

/-- The name that an expression begins with; neither a literal nor a reserved word is one. -/
def leadingName? (expression : String) : Option String :=
  (some (String.ofList (expression.toList.takeWhile isNamePart))).filter
    fun name => isIdentifier name && !naming.isReserved name

/-- What the arguments of a call fall back to. -/
def BodyNode.fallbacks : BodyNode → List String
  | .call _ arguments => arguments.filterMap fun argument => fallback? argument.2
  | _ => []

namespace ClassNode

/-- What the fields of a rendered class hold at first, and what its values fall back to. -/
def expressions (node : ClassNode) : List String :=
  node.properties.filterMap (·.initializer) ++
    node.buildFunctions.flatMap (·.body.fallbacks)

/-- The names at the head of these expressions that are names of fields. -/
def captured (node : ClassNode) : List String :=
  (node.expressions.filterMap leadingName?).filter (· ∈ node.properties.map (·.name))

end ClassNode

/-- The names that the rendered builders of a triad take for their own fields. -/
def capturedNames (triad : Triad) : List String :=
  (nestedBuilders triad).flatMap ClassNode.captured

theorem leadingName?_eq_some {expression name : String} (h : leadingName? expression = some name) :
    isIdentifier name = true ∧ naming.isReserved name = false := by
  obtain ⟨hname, hfilter⟩ := Option.filter_eq_some_iff.mp h
  simpa using hfilter

theorem leadingName?_append {name rest : String} {c : Char} {more : List Char}
    (hi : isIdentifier name = true) (hr : naming.isReserved name = false)
    (hrest : rest.toList = c :: more) (hc : isNamePart c = false) :
    leadingName? (name ++ rest) = some name := by
  have hall : ∀ c ∈ name.toList, isNamePart c = true := fun c => isNamePart_of_mem hi
  rw [leadingName?, String.toList_append, List.takeWhile_append_of_pos hall, hrest,
    List.takeWhile_cons_of_neg (by simp [hc]), List.append_nil, String.ofList_toList,
    Option.filter_some, if_pos (by simp [hi, hr])]

/-- The name at the head of a category's default. -/
def defaultName? : Category → Option String
  | .shape => some "RectangleShape"
  | .shadow => some "ShadowAppearance"
  | .typography => some "TextStyle"
  | .color => some "Color"
  | .floatValue | .dimension => none

theorem leadingName?_default (category : Category) :
    leadingName? (spellValue category.defaultValue) = defaultName? category := by
  cases category <;> decide +kernel

/-- The outside name that a member brings into the builder. -/
def outsideName? : Member → Option String
  | .flat p => defaultName? p.category
  | .delegate d => some d.contract

/-- What a member's field holds at first. -/
def initialValue : Member → String
  | .flat _ => "null"
  | .delegate d => d.contract ++ ("." ++ MemberName.factory ++ "()")

/-- A group whose members can be spelled, with types behind the delegates. -/
structure Capturing (group : PropertyGroup) : Prop extends Spellable group where
  contracts : ∀ d, .delegate d ∈ group.members →
    isIdentifier d.contract = true ∧ naming.isReserved d.contract = false

section
variable {group : PropertyGroup}

/-- A flat field starts from nothing, and a delegate has no default of its own. -/
theorem leadingName?_member (h : Capturing group) {member : Member} (hm : member ∈ group.members)
    {name : String} :
    leadingName? (initialValue member) = some name ∨
        (∃ fallback, memberFallback? member = some fallback ∧
          leadingName? fallback = some name) ↔
      outsideName? member = some name := by
  have hnull : leadingName? "null" = none := by decide +kernel
  cases member with
  | flat p => simp [initialValue, hnull, memberFallback?, leadingName?_default, outsideName?]
  | delegate d =>
    obtain ⟨hidentifier, hunreserved⟩ := h.contracts d hm
    have hlead : leadingName? (initialValue (.delegate d)) = some d.contract :=
      leadingName?_append (c := '.') hidentifier hunreserved rfl (by decide)
    simp [hlead, memberFallback?, outsideName?]

theorem fallbacks_buildBody (h : Spellable group) :
    (bodyNode group.buildBody).fallbacks = group.members.filterMap memberFallback? := by
  rw [bodyNode_buildBody]
  split
  · next hm =>
    rw [hm]
    rfl
  · rw [BodyNode.fallbacks, List.filterMap_map]
    exact List.filterMap_congr fun member hm => fallback?_argumentValue (h.names member hm)

theorem expressions_nestedBuilder (h : Spellable group) :
    (classNode group.nestedBuilder).expressions =
      group.members.map initialValue ++ group.members.filterMap memberFallback? := by
  have hfields : (classNode group.nestedBuilder).properties =
      group.members.map fun member => propertyNode member.field := List.map_map
  have hinitial : ∀ member : Member,
      (propertyNode member.field).initializer = some (initialValue member) := by
    intro member
    cases member with
    | flat p => rfl
    | delegate d =>
      have htext : spellInitializer (.newBuilder d.contract) = initialValue (.delegate d) := by
        rw [spellInitializer, initialValue, String.append_assoc, String.append_assoc,
          String.append_assoc]
      exact congrArg some htext
  rw [ClassNode.expressions, buildFunctions_nestedBuilder h, List.flatMap_singleton, hfields,
    List.filterMap_map]
  simp only [Function.comp_def, hinitial, functionNode, Function.implementation_body,
    fallbacks_buildBody h, List.filterMap_eq_map']

/-- A builder captures the outside names that its fields have too. -/
theorem mem_captured (h : Capturing group) {name : String} :
    name ∈ (classNode group.nestedBuilder).captured ↔
      (∃ member ∈ group.members, safe member.field.name = name) ∧
        ∃ member ∈ group.members, outsideName? member = some name := by
  have hfields : (classNode group.nestedBuilder).properties.map (·.name) =
      group.members.map fun member => safe member.field.name := by
    change ((group.members.map Member.field).map propertyNode).map (·.name) = _
    rw [List.map_map, List.map_map]
    rfl
  have hheads : name ∈ (classNode group.nestedBuilder).expressions.filterMap leadingName? ↔
      ∃ member ∈ group.members, outsideName? member = some name := by
    rw [expressions_nestedBuilder h.toSpellable, List.filterMap_append, List.mem_append]
    simp only [List.mem_filterMap, List.mem_map]
    constructor
    · rintro (⟨_, ⟨member, hm, rfl⟩, hn⟩ | ⟨fallback, ⟨member, hm, hf⟩, hn⟩)
      · exact ⟨member, hm, (leadingName?_member h hm).mp (.inl hn)⟩
      · exact ⟨member, hm, (leadingName?_member h hm).mp (.inr ⟨fallback, hf, hn⟩)⟩
    · rintro ⟨member, hm, hn⟩
      rcases (leadingName?_member h hm).mpr hn with hi | ⟨fallback, hf, hl⟩
      · exact .inl ⟨_, ⟨member, hm, rfl⟩, hi⟩
      · exact .inr ⟨fallback, ⟨member, hm, hf⟩, hl⟩
  rw [ClassNode.captured, List.mem_filter, hheads, hfields, decide_eq_true_eq, List.mem_map,
    and_comm]

end

section
variable {schema : Schema} (hw : schema.WellNamed)
include hw

theorem capturing_of_mem {group : PropertyGroup}
    (hg : group ∈ [styleGroup schema, colorsGroup schema, dimensionsGroup schema]) :
    Capturing group := by
  refine ⟨spellable_of_mem hw hg, fun d hd => ?_⟩
  obtain ⟨_, hcontract, _⟩ := (related_of_mem hg).delegate d hd
  exact ⟨isIdentifier_declared hw hcontract, declared_unreserved hcontract⟩

/-- The outside names are no reserved words, so their spelling is that of a field's name. -/
theorem mem_capturedNames {group : PropertyGroup}
    (hg : group ∈ [styleGroup schema, colorsGroup schema, dimensionsGroup schema])
    (kind : TriadKind) (doc : String) {name : String} :
    name ∈ capturedNames (Triad.ofGroup kind group doc) ↔
      (∃ member ∈ group.members, member.field.name = name) ∧
        ∃ member ∈ group.members, outsideName? member = some name := by
  have hcapturing := capturing_of_mem hw hg
  rw [capturedNames, nestedBuilders_ofGroup, List.flatMap_singleton, mem_captured hcapturing]
  refine and_congr_left fun ⟨member, hm, hname⟩ => ?_
  have hspelled : isIdentifier name = true ∧ safe name = name := by
    have hhead : ∃ expression, leadingName? expression = some name := by
      rcases (leadingName?_member hcapturing hm).mpr hname with hi | ⟨fallback, _, hl⟩
      · exact ⟨_, hi⟩
      · exact ⟨fallback, hl⟩
    obtain ⟨expression, hexpression⟩ := hhead
    obtain ⟨hidentifier, hunreserved⟩ := leadingName?_eq_some hexpression
    exact ⟨hidentifier, by rw [safe, NamingConvention.safe, hunreserved, if_neg (by decide)]⟩
  have hfield : ∀ member ∈ group.members, isIdentifier member.field.name = true := by
    intro member hm
    have hmember := hcapturing.names member hm
    cases member with
    | flat p => exact hmember
    | delegate d => exact isIdentifier_append hmember (by decide)
  refine exists_congr fun member => and_congr_right fun hm => ⟨fun h => ?_, fun h => ?_⟩
  · exact safe_inj (hfield member hm) hspelled.1 (h.trans hspelled.2.symm)
  · rw [h, hspelled.2]

end

/-- The outside names of flat members are those of their categories' defaults. -/
theorem exists_default_iff {properties : Properties} {categories : List Category} {name : String} :
    (∃ p ∈ properties.list categories, defaultName? p.category = some name) ↔
      ∃ category ∈ categories, properties.names category ≠ [] ∧
        defaultName? category = some name := by
  simp only [Properties.list, List.mem_flatMap, List.mem_map]
  constructor
  · rintro ⟨_, ⟨category, hc, member, hm, rfl⟩, hname⟩
    exact ⟨category, hc, List.ne_nil_of_mem hm, hname⟩
  · rintro ⟨category, hc, hne, hname⟩
    obtain ⟨member, hm⟩ := List.exists_mem_of_ne_nil _ hne
    exact ⟨⟨member, category⟩, ⟨category, hc, member, hm, rfl⟩, hname⟩

/-- A builder without delegates captures a default's name where a property has it. -/
theorem mem_capturedNames_flat {schema : Schema} (hw : schema.WellNamed) {group : PropertyGroup}
    (hg : group ∈ [styleGroup schema, colorsGroup schema, dimensionsGroup schema])
    {category : Category} (hm : group.members = (schema.properties.list [category]).map .flat)
    (kind : TriadKind) (doc : String) {name : String} :
    name ∈ capturedNames (Triad.ofGroup kind group doc) ↔
      name ∈ schema.properties.names category ∧ defaultName? category = some name := by
  have hlist : schema.properties.list [category] =
      (schema.properties.names category).map (⟨·, category⟩) := List.flatMap_singleton _ _
  rw [mem_capturedNames hw hg, hm, hlist, List.map_map]
  constructor
  · rintro ⟨⟨_, hfield, rfl⟩, ⟨_, hother, hname⟩⟩
    obtain ⟨first, hfirst, rfl⟩ := List.mem_map.mp hfield
    obtain ⟨second, _, rfl⟩ := List.mem_map.mp hother
    exact ⟨hfirst, hname⟩
  · rintro ⟨hfield, hname⟩
    have hmember := List.mem_map_of_mem (f := Member.flat ∘ (⟨·, category⟩)) hfield
    exact ⟨⟨_, hmember, rfl⟩, ⟨_, hmember, hname⟩⟩

/-- The members of a style are its properties and the two that it delegates to. -/
theorem exists_styleMember_iff {schema : Schema} {holds : Member → Prop} :
    (∃ member ∈ (styleGroup schema).members, holds member) ↔
      (∃ p ∈ schema.styleProperties, holds (.flat p)) ∨
        holds (.delegate ⟨MemberName.colors, schema.name ++ "Colors",
          schema.name ++ "ColorsBuilder", colorsDoc⟩) ∨
        holds (.delegate ⟨MemberName.dimensions, schema.name ++ "Dimensions",
          schema.name ++ "DimensionsBuilder", dimensionsDoc⟩) := by
  simp [styleGroup, StyleNames.ofBase, or_and_right, exists_or]

/-- The fields of the style's builder are those of its properties and of the two sub-builders. -/
theorem exists_styleField_iff {schema : Schema} {name : String} :
    (∃ member ∈ (styleGroup schema).members, member.field.name = name) ↔
      name ∈ schema.styleProperties.map Property.name ∨
        name ∈ [MemberName.builderField MemberName.colors,
          MemberName.builderField MemberName.dimensions] := by
  rw [exists_styleMember_iff, List.mem_map]
  exact or_congr .rfl (by simp [Member.field, eq_comm])

theorem exists_styleOutside_iff {schema : Schema} {name : String} :
    (∃ member ∈ (styleGroup schema).members, outsideName? member = some name) ↔
      (∃ category ∈ Category.styleOrder, schema.properties.names category ≠ [] ∧
        defaultName? category = some name) ∨
        name ∈ [schema.name ++ "Colors", schema.name ++ "Dimensions"] := by
  rw [exists_styleMember_iff, ← exists_default_iff]
  exact or_congr .rfl (by simp [outsideName?, eq_comm])

/-- The fields of the sub-builders are called like nothing from outside. -/
theorem builderField_not_outside {schema : Schema} {name : String}
    (hn : name ∈ [MemberName.builderField MemberName.colors,
      MemberName.builderField MemberName.dimensions]) :
    ¬∃ member ∈ (styleGroup schema).members, outsideName? member = some name := by
  have hdefault : ∀ name ∈ [MemberName.builderField MemberName.colors,
      MemberName.builderField MemberName.dimensions], ∀ category ∈ Category.styleOrder,
        defaultName? category ≠ some name := by decide
  have hending : ∀ name ∈ [MemberName.builderField MemberName.colors,
      MemberName.builderField MemberName.dimensions], ∀ ending ∈ ["Colors", "Dimensions"],
        ¬ending.toList <:+ name.toList := by decide
  have hcontract : ∀ ending ∈ ["Colors", "Dimensions"], name ≠ schema.name ++ ending := by
    rintro ending he rfl
    refine hending _ hn ending he ?_
    rw [String.toList_append]
    exact List.suffix_append _ _
  rw [exists_styleOutside_iff]
  rintro (⟨category, hc, _, hname⟩ | hname)
  · exact hdefault name hn category hc hname
  · simp only [List.mem_cons, List.not_mem_nil, or_false] at hname
    rcases hname with hname | hname
    · exact hcontract "Colors" (by decide) hname
    · exact hcontract "Dimensions" (by decide) hname

/-- For an accepted component, the builder of the style captures the two types it delegates to and
the defaults of the categories that it has, each exactly if a property of the style is called so;
the builder of the colors captures `Color` if that is a color property; the builder of the
dimensions captures nothing. -/
theorem capturedNames_iff {schema : Schema} (h : Lint.accepts schema = true) {name : String} :
    (name ∈ capturedNames (assemble schema).style ↔
      name ∈ schema.styleProperties.map Property.name ∧
        ((∃ category ∈ Category.styleOrder, schema.properties.names category ≠ [] ∧
          defaultName? category = some name) ∨
            name ∈ [schema.name ++ "Colors", schema.name ++ "Dimensions"])) ∧
      (name ∈ capturedNames (assemble schema).colors ↔
        name = "Color" ∧ "Color" ∈ schema.properties.color) ∧
      name ∉ capturedNames (assemble schema).dimensions := by
  have hw := accepts_iff_wellNamed.mp h
  have hs : styleGroup schema ∈ [styleGroup schema, colorsGroup schema, dimensionsGroup schema] :=
    by simp
  have hc : colorsGroup schema ∈ [styleGroup schema, colorsGroup schema, dimensionsGroup schema] :=
    by simp
  have hd : dimensionsGroup schema ∈
      [styleGroup schema, colorsGroup schema, dimensionsGroup schema] := by simp
  have hstyle : name ∈ capturedNames (assemble schema).style ↔ _ :=
    mem_capturedNames hw hs .style styleDoc
  have hcolors : name ∈ capturedNames (assemble schema).colors ↔
      name ∈ schema.properties.color ∧ some "Color" = some name :=
    mem_capturedNames_flat hw hc rfl .colors colorsDoc
  have hdimensions : name ∈ capturedNames (assemble schema).dimensions ↔
      name ∈ schema.properties.dimension ∧ none = some name :=
    mem_capturedNames_flat hw hd rfl .dimensions dimensionsDoc
  refine ⟨?_, ?_, ?_⟩
  · rw [hstyle, ← exists_styleOutside_iff, exists_styleField_iff]
    refine and_congr_left fun houtside => or_iff_left fun hbuilder => ?_
    exact builderField_not_outside hbuilder houtside
  · rw [hcolors, Option.some.injEq]
    constructor
    · rintro ⟨hm, rfl⟩
      exact ⟨rfl, hm⟩
    · rintro ⟨rfl, hm⟩
      exact ⟨hm, rfl⟩
  · rw [hdimensions]
    simp

/-- A card with properties called like the default shape, one of its own types and a color. -/
def capturingSchema : Schema where
  name := "Card"
  properties :=
    { shape := ["RectangleShape"], typography := ["CardColors", "title"], color := ["Color"]
      dimension := ["CardDimensions"] }

theorem card_capturedNames :
    Lint.accepts capturingSchema = true ∧
      "RectangleShape" ∈ capturedNames (assemble capturingSchema).style ∧
      "CardColors" ∈ capturedNames (assemble capturingSchema).style ∧
      "CardDimensions" ∉ capturedNames (assemble capturingSchema).style ∧
      "Color" ∈ capturedNames (assemble capturingSchema).colors ∧
      "CardDimensions" ∉ capturedNames (assemble capturingSchema).dimensions := by
  have h : Lint.accepts capturingSchema = true := by decide +kernel
  refine ⟨h, (capturedNames_iff h).1.mpr ?_, (capturedNames_iff h).1.mpr ?_, ?_,
    (capturedNames_iff h).2.1.mpr (by decide), (capturedNames_iff h).2.2⟩
  · decide
  · decide
  · rw [(capturedNames_iff h).1]
    decide

/-- An accepted component whose default shape is its own shape. -/
theorem rectangleShape_captured :
    Lint.accepts ⟨"Card", { shape := ["RectangleShape"] }⟩ = true ∧
      capturedNames (assemble ⟨"Card", { shape := ["RectangleShape"] }⟩).style =
        ["RectangleShape"] := by
  decide +kernel

end Kotlin
end StyleFamily
