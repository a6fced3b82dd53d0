import StyleFamily.Manifest.Scan
import StyleFamily.Proofs.Kotlin.Fallbacks
import StyleFamily.Proofs.Kotlin.Provenance

/-!
# Keywords among the names of a unit

The lines of a unit hold its words and no others. Members are quoted where the language reserves
their names, and no declaration is called like a reserved word; the components of the package are
written as they are, so a reserved word among them stands bare.
-/
namespace StyleFamily
namespace Kotlin

namespace Word

def isFixed : Word → Bool
  | .fixed _ => true
  | _ => false

/-- A name that is written as a reserved word. -/
def Bare (word : Word) : Prop := word.isFixed = false ∧ naming.isReserved word.spelled = true

end Word

/-- Quoting leaves no reserved word. -/
theorem safe_unreserved (name : String) : naming.isReserved (safe name) = false := by
  have hquoted : ∀ word ∈ naming.reserved,
      naming.isReserved (naming.opening ++ word ++ naming.closing) = false := by decide
  rw [safe, NamingConvention.safe]
  split
  · next h => exact hquoted name (by simpa [NamingConvention.isReserved] using h)
  · next h => simpa using h

/-- Only a component of the package can stand bare. -/
theorem bare_iff {schema : Schema} {package : String} {word : Word}
    (h : word.ComesFrom schema package) :
    word.Bare ↔ ∃ segment, naming.isReserved segment = true ∧ word = .segment segment := by
  have hbuilder : naming.isReserved MemberName.nestedBuilder = false := by decide
  cases word with
  | fixed text => simp [Word.Bare, Word.isFixed]
  | declared name =>
    have hname : naming.isReserved name = false := by
      rcases h with hd | rfl
      · exact declared_unreserved hd
      · exact hbuilder
    simp [Word.Bare, Word.spelled, hname]
  | member name => simp [Word.Bare, Word.spelled, safe_unreserved]
  | segment name => simp [Word.Bare, Word.isFixed, Word.spelled]

theorem valid_of_comesFrom {schema : Schema} (hw : schema.WellNamed) {package : String}
    {word : Word} (h : word.ComesFrom schema package) : word.Valid := by
  cases word with
  | fixed text => trivial
  | segment name => trivial
  | declared name =>
    rcases h with hd | rfl
    · exact isIdentifier_declared hw hd
    · exact (by decide : isIdentifier MemberName.nestedBuilder = true)
  | member name =>
    have hfixed : ∀ name ∈ fixedMembers, isIdentifier name = true := by decide
    rcases h with ⟨p, hp, rfl⟩ | hf
    · exact hw.identifiers p hp
    · exact hfixed name hf

section
variable {schema : Schema} {group : PropertyGroup}
  (hg : group ∈ [styleGroup schema, colorsGroup schema, dimensionsGroup schema])
  {holds : String → Prop}
include hg

/-- A builder's documentation names what is built, or the builder is that of the style. -/
theorem builderDoc_of (hstyle : holds (styleDoc ++ " builder"))
    (hresult : holds ("Builder for [" ++ group.result ++ "]")) : holds group.builderDoc := by
  simp only [List.mem_cons, List.not_mem_nil, or_false] at hg
  rcases hg with rfl | rfl | rfl
  · exact hstyle
  · exact hresult
  · exact hresult

/-- A member's documentation is that of its category, or of what it delegates to. -/
theorem memberDoc_of (hcategory : ∀ category : Category, holds category.description)
    (hcolors : holds colorsDoc) (hdimensions : holds dimensionsDoc) {member : Member}
    (hm : member ∈ group.members) : holds member.doc := by
  cases member with
  | flat p => exact hcategory p.category
  | delegate d =>
    rcases delegate_cases hg hm with rfl | rfl
    · exact hcolors
    · exact hdimensions

end

/-- A group whose documentation stays in its lines. -/
structure Described (group : PropertyGroup) : Prop where
  result : Text.Unbroken group.result
  builder : Text.Unbroken group.builder
  builderDoc : Text.Unbroken group.builderDoc
  names : ∀ member ∈ group.members, Text.Unbroken member.name
  docs : ∀ member ∈ group.members, Text.Unbroken member.doc

theorem described_of_mem {schema : Schema} (hw : schema.WellNamed) {group : PropertyGroup}
    (hg : group ∈ [styleGroup schema, colorsGroup schema, dimensionsGroup schema]) :
    Described group := by
  have hrelated := related_of_mem hg
  have hresult := unbroken_of_isIdentifier (isIdentifier_declared hw hrelated.result)
  have hbuilder := unbroken_of_isIdentifier (isIdentifier_declared hw hrelated.builder)
  have hcategory : ∀ category : Category, Text.Unbroken category.description := by
    intro category
    cases category <;> decide
  exact ⟨hresult, hbuilder,
    builderDoc_of hg (by decide) (unbroken_around hresult (by decide) (by decide)),
    fun member hm => unbroken_of_isIdentifier ((spellable_of_mem hw hg).names member hm),
    fun member hm => memberDoc_of hg hcategory (by decide) (by decide) hm⟩

/-- A function that constructs nothing is as plain as its documentation. -/
theorem functionPlain_of_doc {f : Function} (hd : ∀ text ∈ f.doc, Text.Unbroken text)
    (hb : ∀ className arguments, f.body ≠ .construct className arguments) : FunctionPlain f :=
  ⟨hd, fun className arguments hf => absurd hf (hb className arguments)⟩

section
variable {group : PropertyGroup} (h : Described group)
include h

theorem functionPlain_setter {member : Member} (hm : member ∈ group.members) :
    FunctionPlain (group.setter member) := by
  have hname := h.names member hm
  have hdoc : ∀ text ∈ (group.setter member).doc, Text.Unbroken text := by
    cases member with
    | flat p =>
      rintro text ⟨⟩
      exact unbroken_around hname (by decide) (by decide)
    | delegate d =>
      rintro text ⟨⟩
      have hfront : Text.Unbroken ("Configures [" ++ group.result ++ ".") :=
        unbroken_around h.result (by decide) (by decide)
      exact unbroken_around hname hfront (by decide)
  exact functionPlain_of_doc hdoc fun _ _ hb => by simp at hb

theorem functionPlain_overload {member : Member} (hm : member ∈ group.members) {f : Function}
    (hf : f ∈ group.overload member) : FunctionPlain f := by
  have hname := h.names member hm
  cases member with
  | delegate d => simp [PropertyGroup.overload] at hf
  | flat p =>
    rw [PropertyGroup.overload] at hf
    split at hf
    · obtain rfl := List.mem_singleton.mp hf
      refine functionPlain_of_doc ?_ fun _ _ hb => by simp at hb
      rintro text ⟨⟩
      exact unbroken_around hname (by decide) (by decide)
    · simp at hf

theorem interfacePlain_builder : InterfacePlain group.contract := by
  have hreturns : Text.Unbroken ("Returns [" ++ group.result ++ "]") :=
    unbroken_around h.result (by decide) (by decide)
  have hbuild : FunctionPlain
      { group.buildFunction with doc := some ("Returns [" ++ group.result ++ "]") } := by
    refine functionPlain_of_doc ?_ fun _ _ hb => by simp [PropertyGroup.buildFunction] at hb
    rintro text ⟨⟩
    exact hreturns
  refine ⟨?_, by simp [PropertyGroup.contract], fun f hf => ?_, by simp [PropertyGroup.contract]⟩
  · rintro text ⟨⟩
    exact h.builderDoc
  · rcases List.mem_append.mp hf with hs | hb
    · obtain ⟨member, hm, rfl | ho⟩ := PropertyGroup.mem_setters.mp hs
      · exact functionPlain_setter h hm
      · exact functionPlain_overload h hm ho
    · obtain rfl := List.mem_singleton.mp hb
      exact hbuild

theorem interfacePlain_contract (kind : TriadKind) {doc : String} (hd : Text.Unbroken doc) :
    InterfacePlain (Triad.ofGroup kind group doc).contract := by
  have hfactory : FunctionPlain (builderFactory kind group) := by
    refine functionPlain_of_doc ?_ fun _ _ hb => by simp [builderFactory] at hb
    rintro text ⟨⟩
    exact unbroken_around h.builder (by decide) (by decide)
  refine ⟨?_, fun p hp => ?_, by simp [Triad.ofGroup], ?_⟩
  · rintro text ⟨⟩
    exact hd
  · obtain ⟨member, hm, rfl⟩ := List.mem_map.mp hp
    rintro text ⟨⟩
    exact h.docs member hm
  · rintro functions ⟨⟩
    exact List.forall_mem_singleton.mpr hfactory

end

/-- The values in a default implementation are defaults, which stay in their lines. -/
theorem argumentPlain (member : Member) : ArgumentPlain member.argument := by
  cases member with
  | delegate d => trivial
  | flat p =>
    have hvalue : ∀ category : Category, Plain (spellValue category.defaultValue) := by
      intro category
      cases category <;> decide +kernel
    exact hvalue p.category

theorem classPlain_defaultImplementation (group : PropertyGroup) :
    ClassPlain group.defaultImplementation := by
  have hsetter : ∀ member : Member,
      FunctionPlain ((group.setter member).implementation member.setterBody) := by
    intro member
    refine functionPlain_of_doc (by simp [Function.implementation]) fun _ _ hb => ?_
    cases member <;> simp [Member.setterBody] at hb
  have hbuild : FunctionPlain (group.buildFunction.implementation group.buildBody) := by
    refine ⟨by simp [Function.implementation], fun className arguments hb argument ha => ?_⟩
    rw [Function.implementation_body] at hb
    by_cases hm : group.members = []
    · rw [group.buildBody_eq_singleton hm] at hb
      cases hb
    · rw [group.buildBody_eq_construct hm] at hb
      cases hb
      obtain ⟨member, _, rfl⟩ := List.mem_map.mp ha
      exact argumentPlain member
  have hfields : ∀ p ∈ group.members.map Member.field, ∀ text ∈ p.doc, Text.Unbroken text := by
    intro p hp
    obtain ⟨member, _, rfl⟩ := List.mem_map.mp hp
    cases member <;> simp [Member.field]
  have hfunctions : ∀ f ∈ group.nestedBuilder.functions, FunctionPlain f := by
    rw [group.nestedBuilder_functions]
    intro f hf
    rcases List.mem_append.mp hf with hs | hb
    · obtain ⟨member, _, rfl⟩ := List.mem_map.mp hs
      exact hsetter member
    · obtain rfl := List.mem_singleton.mp hb
      exact hbuild
  have hnested : ClassPlain group.nestedBuilder :=
    ⟨by simp, hfields, hfunctions, trivial⟩
  exact ⟨by simp, by simp, by simp, hnested, trivial⟩

theorem declarationPlain_triad {group : PropertyGroup} (h : Described group) (kind : TriadKind)
    {doc : String} (hd : Text.Unbroken doc) :
    ∀ declaration ∈ (Triad.ofGroup kind group doc).declarations, DeclarationPlain declaration := by
  simp only [Triad.declarations, List.forall_mem_cons, List.not_mem_nil, false_implies,
    implies_true, and_true]
  exact ⟨interfacePlain_contract h kind hd, interfacePlain_builder h,
    classPlain_defaultImplementation group⟩

/-- The lines of an accepted component's unit hold its words and no others. -/
theorem codeWords_assembled {schema : Schema} (hw : schema.WellNamed) {package : String}
    (hp : packageFault? package = none) :
    codeWords (unitText (assemble schema) package) =
      (unitWords (assemble schema) package).map Word.spelled := by
  have hname : (assemble schema).accessor.name ∈ declaredNames (assemble schema) :=
    List.mem_cons_self
  have hstyle : (assemble schema).accessor.style ∈ declaredNames (assemble schema) :=
    List.mem_cons_of_mem _ List.mem_cons_self
  have hdoc : ∀ text ∈ (assemble schema).accessor.doc, Text.Unbroken text := by
    rintro text ⟨⟩
    exact unbroken_around (unbroken_of_isIdentifier (isIdentifier_declared hw hstyle)) (by decide)
      (by decide)
  have hs : Described (styleGroup schema) := described_of_mem hw (by simp)
  have hc : Described (colorsGroup schema) := described_of_mem hw (by simp)
  have hd : Described (dimensionsGroup schema) := described_of_mem hw (by simp)
  have htraced : Traced schema package ((assemble schema).declarations.flatMap declarationWords) :=
    traced_declarations
  refine codeWords_unitText hp (fun line hl => (importLine_fixed hl).1)
    ⟨isIdentifier_declared hw hname, isIdentifier_declared hw hstyle, hdoc⟩
    (fun word hm => valid_of_comesFrom hw (htraced word hm)) ?_
  rw [Artifacts.declarations, List.forall_mem_append, List.forall_mem_append]
  exact ⟨⟨declarationPlain_triad hs .style (by decide : Text.Unbroken styleDoc),
    declarationPlain_triad hc .colors (by decide : Text.Unbroken colorsDoc)⟩,
    declarationPlain_triad hd .dimensions (by decide : Text.Unbroken dimensionsDoc)⟩

/-- Every property has its place among the words: its builder sets it. -/
theorem member_mem_unitWords {schema : Schema} {p : Property} (hp : p ∈ schema.occurrences)
    (package : String) : .member p.name ∈ unitWords (assemble schema) package := by
  obtain ⟨group, hg, hm⟩ := exists_group_of_occurrence hp
  have hsetter : .member p.name ∈ functionWords (group.setter (.flat p)) := by
    simp [functionWords, headWords, Member.name]
  have hbuilder : .member p.name ∈ interfaceWords group.contract := by
    refine List.mem_append_right _ (List.mem_append_right _ (List.mem_append_left _
      (List.mem_append_right _ (List.mem_flatMap.mpr ⟨_, List.mem_append_left _ ?_, hsetter⟩))))
    exact PropertyGroup.mem_setters.mpr ⟨_, hm, .inl rfl⟩
  have hdeclared : .ofInterface group.contract ∈ (assemble schema).declarations := by
    simp only [List.mem_cons, List.not_mem_nil, or_false] at hg
    rcases hg with rfl | rfl | rfl <;>
      simp [Artifacts.declarations, Triad.declarations, assemble, Triad.ofGroup]
  exact List.mem_append_right _ (List.mem_append_right _
    (List.mem_flatMap.mpr ⟨_, hdeclared, hbuilder⟩))

/-- The unit of an accepted component in the package of a valid manifest is made of words whose
origin is known, every property among them; those that are names and yet spelled like a reserved
word are the reserved components of the package. -/
theorem unit_bare_iff {source : List Char} {manifest : Manifest} {schema : Schema}
    (hm : manifest.validate source = .ok ()) (h : Lint.accepts schema = true) :
    let package := manifest.output.package
    let ws := unitWords (assemble schema) package
    codeWords (Language.kotlin.unit (assemble schema) package).content = ws.map Word.spelled ∧
      (∀ word ∈ ws, word.ComesFrom schema package) ∧
      (∀ p ∈ schema.occurrences, .member p.name ∈ ws) ∧
      ∀ word, word ∈ ws ∧ word.Bare ↔ ∃ segment ∈ Text.splitAt '.' package,
        naming.isReserved segment = true ∧ word = .segment segment := by
  have hw := accepts_iff_wellNamed.mp h
  obtain ⟨hp, _⟩ := Manifest.validate_eq_ok.mp hm
  refine ⟨codeWords_assembled hw hp, traced_unit schema _, fun p hp => member_mem_unitWords hp _,
    fun word => ⟨?_, ?_⟩⟩
  · rintro ⟨hword, hbare⟩
    have hfrom := traced_unit schema manifest.output.package word hword
    obtain ⟨segment, hreserved, rfl⟩ := (bare_iff hfrom).mp hbare
    exact ⟨segment, hfrom, hreserved, rfl⟩
  · rintro ⟨segment, hs, hreserved, rfl⟩
    have hword : .segment segment ∈ unitWords (assemble schema) manifest.output.package :=
      List.mem_append_left _ (List.mem_append_left _
        (List.mem_cons_of_mem _ (List.mem_map_of_mem hs)))
    exact ⟨hword, (bare_iff (traced_unit schema _ _ hword)).mpr ⟨segment, hreserved, rfl⟩⟩

/-- A manifest with reserved words among the names of its parameters and in its package. -/
def keywordManifest : Manifest where
  output := { package := "com.in.app" }
  declarations :=
    [{ name := "SwitchProperties"
       supertypes := ["PropertyOwner"]
       parameters := [⟨"in", "ShapeProperty"⟩, ⟨"object", "ColorProperty"⟩] }]

def keywordSchema : Schema where
  name := "Switch"
  properties := { shape := ["in"], color := ["object"] }

/-- The properties of the switch are quoted, the component of the package is not. -/
theorem switch_unit_bare :
    keywordManifest.validate [] = .ok () ∧ Lint.accepts keywordSchema = true ∧
      "`in`" ∈ codeWords (Language.kotlin.unit (assemble keywordSchema) "com.in.app").content ∧
      "`object`" ∈ codeWords (Language.kotlin.unit (assemble keywordSchema) "com.in.app").content ∧
      ∀ word, word ∈ unitWords (assemble keywordSchema) "com.in.app" ∧ word.Bare ↔
        word = .segment "in" := by
  have hm : keywordManifest.validate [] = .ok () := by decide +kernel
  have h : Lint.accepts keywordSchema = true := by decide +kernel
  obtain ⟨hwords, _, hmembers, hbare⟩ := unit_bare_iff hm h
  have hquoted : ∀ p ∈ keywordSchema.occurrences, safe p.name ∈
      codeWords (Language.kotlin.unit (assemble keywordSchema) "com.in.app").content :=
    fun p hp => hwords.symm ▸ List.mem_map_of_mem (hmembers p hp)
  have hsegments : ∀ segment ∈ Text.splitAt '.' keywordManifest.output.package,
      naming.isReserved segment = true ↔ segment = "in" := by decide
  refine ⟨hm, h, hquoted ⟨"in", .shape⟩ (by decide), hquoted ⟨"object", .color⟩ (by decide),
    fun word => (hbare word).trans ⟨?_, ?_⟩⟩
  · rintro ⟨segment, hs, hreserved, rfl⟩
    rw [(hsegments segment hs).mp hreserved]
  · rintro rfl
    exact ⟨"in", by decide, by decide, rfl⟩

/-- A valid manifest with a found and accepted component whose unit names a component of the package
by a reserved word, without quotes. -/
theorem package_keyword_unquoted :
    keywordManifest.validate [] = .ok () ∧ keywordManifest.scan = .found keywordSchema [] ∧
      Lint.accepts keywordSchema = true ∧ naming.isReserved "in" = true ∧
      "in" ∈ Text.splitAt '.' keywordManifest.output.package ∧
      "in" ∈ codeWords (Language.kotlin.unit (assemble keywordSchema)
        keywordManifest.output.package).content := by
  have h : Lint.accepts keywordSchema = true := by decide +kernel
  have hwords : codeWords (Language.kotlin.unit (assemble keywordSchema)
      keywordManifest.output.package).content =
        (unitWords (assemble keywordSchema) keywordManifest.output.package).map Word.spelled :=
    codeWords_assembled (accepts_iff_wellNamed.mp h) (by decide +kernel)
  have hsegment : "in" ∈ Text.splitAt '.' keywordManifest.output.package := by decide
  have hpackage : .segment "in" ∈ packageWords keywordManifest.output.package :=
    List.mem_cons_of_mem _ (List.mem_map_of_mem hsegment)
  refine ⟨by decide +kernel, by decide +kernel, h, by decide, hsegment, ?_⟩
  rw [hwords]
  exact List.mem_map_of_mem (f := Word.spelled)
    (List.mem_append_left _ (List.mem_append_left _ hpackage))

end Kotlin
end StyleFamily
