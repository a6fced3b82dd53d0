import StyleFamily.Proofs.Kotlin.Members
import StyleFamily.Proofs.Kotlin.Symbols

/-!
# A unit loses nothing

A unit is read from the front: package, imports, the accessor with the name of the component, and
three triads. A triad opens with the contract, which shows the members; once these are known, so is
all of the triad, and with it where the next one begins.
-/
namespace StyleFamily
namespace Kotlin
open Fragment

/-- The characters of a triad's declarations. -/
def triadText (triad : Triad) : List Char :=
  (triad.declarations.map declarationFragments).flatMap (paragraph 0)

/-- The line that opens the contract of a group. -/
def contractOpening (kind : TriadKind) (group : PropertyGroup) : String :=
  "interface " ++ group.result ++
    supertypeClause ((if kind = .style then [TypeRef.styleBase] else []).map spellType) ++ " \x7b"

/-- The paragraphs in the body of a contract: its members and the companion. -/
def contractGroups (kind : TriadKind) (group : PropertyGroup) : List (List Fragment) :=
  group.members.map (fun member => (propertyNode member.declared).fragments) ++
    [[Fragment.braced "companion object \x7b"
      (separated [(functionNode (builderFactory kind group)).fragments])]]

theorem contract_fragments (kind : TriadKind) (group : PropertyGroup) (doc : String) :
    declarationFragments (.ofInterface (Triad.ofGroup kind group doc).contract) =
      [.doc doc, .line "@Immutable",
        .braced (contractOpening kind group) (separated (contractGroups kind group))] := by
  simp [declarationFragments, interfaceNode, InterfaceNode.fragments, Triad.ofGroup, Fragment.docs,
    contractOpening, contractGroups, Member.declared, immutable, Function.comp_def]

/-- What a triad opens with, down to the body of the contract. -/
def triadOpening (kind : TriadKind) (group : PropertyGroup) (doc : String) : List Char :=
  '\n' :: (row 0 ("/** " ++ doc ++ " */") ++ row 0 "@Immutable" ++
    row 0 (contractOpening kind group))

/-- The companion comes after the members. -/
theorem printed_contractGroups (kind : TriadKind) (group : PropertyGroup) :
    ∃ rest, '\n' :: printedAll 1 (separated (contractGroups kind group)) =
      group.members.flatMap (fun member => paragraph 1 (propertyNode member.declared).fragments) ++
        '\n' :: (Page.marginOf 1 ++ 'c' :: rest) := by
  obtain ⟨rest, hcompanion⟩ : ∃ rest, "companion object \x7b".toList = 'c' :: rest := ⟨_, rfl⟩
  have hparagraphs : (contractGroups kind group).flatMap (paragraph 1) =
      group.members.flatMap (fun member => paragraph 1 (propertyNode member.declared).fragments) ++
        '\n' :: (Page.marginOf 1 ++ 'c' :: (rest ++ '\n' :: (printedAll 2
          (separated [(functionNode (builderFactory kind group)).fragments]) ++ row 1 "\x7d"))) := by
    rw [contractGroups, List.flatMap_append, List.flatMap_map, List.flatMap_singleton]
    simp [paragraph, printedAll, printed, braced, row, hcompanion]
  exact ⟨_, (cons_printedAll_separated (by simp [hparagraphs])).trans hparagraphs⟩

/-- A triad opens by its names and goes on with the members of its group. -/
theorem triadText_eq (kind : TriadKind) (group : PropertyGroup) (doc : String) (after : List Char) :
    ∃ body rest, triadText (Triad.ofGroup kind group doc) ++ after =
        triadOpening kind group doc ++ body ∧
      '\n' :: body = group.members.flatMap
          (fun member => paragraph 1 (propertyNode member.declared).fragments) ++
        '\n' :: (Page.marginOf 1 ++ 'c' :: rest) := by
  obtain ⟨rest, hgroups⟩ := printed_contractGroups kind group
  obtain ⟨more, htriad⟩ : ∃ more, triadText (Triad.ofGroup kind group doc) =
      triadOpening kind group doc ++
        (printedAll 1 (separated (contractGroups kind group)) ++ more) := by
    refine ⟨row 0 "\x7d" ++ ([.ofInterface group.contract,
      .ofClass group.defaultImplementation].map declarationFragments).flatMap (paragraph 0), ?_⟩
    rw [triadText, Triad.declarations, List.map_cons, List.flatMap_cons, contract_fragments]
    simp [paragraph, printedAll, printed, braced, triadOpening, Triad.ofGroup]
  refine ⟨printedAll 1 (separated (contractGroups kind group)) ++ (more ++ after),
    rest ++ (more ++ after), by rw [htriad, List.append_assoc, List.append_assoc], ?_⟩
  rw [← List.cons_append, hgroups]
  simp only [List.append_assoc, List.cons_append]

/-- A triad tells the members of its group, whatever comes after it. -/
theorem triadText_append_inj {kind : TriadKind} {first second : PropertyGroup} {doc : String}
    (hresult : first.result = second.result) (hf : ∀ member ∈ first.members, Legible member)
    (hs : ∀ member ∈ second.members, Legible member) {r s : List Char}
    (h : triadText (Triad.ofGroup kind first doc) ++ r =
      triadText (Triad.ofGroup kind second doc) ++ s) :
    first.members.map shown = second.members.map shown := by
  obtain ⟨body, rest, htext, hbody⟩ := triadText_eq kind first doc r
  obtain ⟨body', rest', htext', hbody'⟩ := triadText_eq kind second doc s
  have hopening : triadOpening kind first doc = triadOpening kind second doc := by
    rw [triadOpening, triadOpening, contractOpening, contractOpening, hresult]
  rw [htext, htext', hopening] at h
  have hsame : body = body' := List.append_cancel_left h
  rw [hsame, hbody'] at hbody
  exact (members_append_inj hs hf hbody).symm

/-- Flat members are told apart by name and type. -/
theorem shown_flat_injective : Function.Injective fun p => shown (.flat p) := by
  have htype : ∀ a b : Category, typeName a.valueType = typeName b.valueType → a = b := by
    intro a b
    cases a <;> cases b <;> decide
  rintro ⟨name, category⟩ ⟨other, second⟩ h
  obtain ⟨hname, hspelled⟩ := Prod.mk.inj h
  obtain rfl : name = other := hname
  rw [htype category second hspelled]

theorem properties_of_flat {first second : List Property}
    (h : (first.map Member.flat).map shown = (second.map Member.flat).map shown) :
    first = second := by
  rw [List.map_map, List.map_map] at h
  exact List.map_injective_iff.mpr shown_flat_injective h

theorem legible_flat {schema : Schema} (hw : schema.WellNamed) {p : Property}
    (hp : p ∈ schema.occurrences) : Legible (.flat p) := by
  have hdoc : ∀ category : Category, Text.Inline category.description := by
    intro category
    cases category <;> decide
  have htype : ∀ type : ValueType, Text.Inline (typeName type) := by
    intro type
    cases type <;> decide
  exact ⟨hw.identifiers p hp, hdoc p.category, htype _⟩

/-- The members of an accepted component's groups can be read back. -/
theorem legible_of_mem {schema : Schema} (hw : schema.WellNamed) {group : PropertyGroup}
    (hg : group ∈ [styleGroup schema, colorsGroup schema, dimensionsGroup schema])
    {member : Member} (hm : member ∈ group.members) : Legible member := by
  cases member with
  | flat p => exact legible_flat hw (flat_mem_occurrences hg hm)
  | delegate d =>
    have hname : ∀ ending : String, Text.Inline ending → Text.Inline (schema.name ++ ending) :=
      fun ending he => inline_append.mpr ⟨inline_of_isIdentifier hw.component, he⟩
    rcases delegate_cases hg hm with rfl | rfl
    · exact ⟨(by decide : isIdentifier MemberName.colors = true),
        (by decide : Text.Inline colorsDoc), hname "Colors" (by decide)⟩
    · exact ⟨(by decide : isIdentifier MemberName.dimensions = true),
        (by decide : Text.Inline dimensionsDoc), hname "Dimensions" (by decide)⟩

/-- The characters of the three triads. -/
def familyText (schema : Schema) : List Char :=
  triadText (.ofGroup .style (styleGroup schema) styleDoc) ++
    (triadText (.ofGroup .colors (colorsGroup schema) colorsDoc) ++
      triadText (.ofGroup .dimensions (dimensionsGroup schema) dimensionsDoc))

/-- The names of one category, out of those of several. -/
theorem names_of_list {properties : Properties} {categories : List Category}
    (hn : categories.Nodup) {category : Category} (hc : category ∈ categories) :
    ((properties.list categories).filter (·.category = category)).map Property.name =
      properties.names category := by
  induction categories with
  | nil => simp at hc
  | cons first rest ih =>
    obtain ⟨hfirst, hrest⟩ := List.nodup_cons.mp hn
    rw [Properties.list, List.flatMap_cons, List.filter_append, List.map_append,
      ← Properties.list]
    by_cases he : first = category
    · have hnone : (properties.list rest).filter (·.category = category) = [] := by
        rw [List.filter_eq_nil_iff]
        intro p hp
        simp only [Properties.list, List.mem_flatMap, List.mem_map] at hp
        obtain ⟨other, ho, _, _, rfl⟩ := hp
        intro hother
        obtain rfl : other = category := by simpa using hother
        exact hfirst (he ▸ ho)
      rw [hnone, he]
      simp [List.filter_map, Function.comp_def]
    · rw [ih hrest ((List.mem_cons.mp hc).resolve_left (Ne.symm he))]
      simp [List.filter_map, Function.comp_def, he]

/-- The three lists that the groups are made of hold all properties of a component. -/
theorem properties_ext {first second : Schema}
    (hstyle : first.styleProperties = second.styleProperties)
    (hcolors : first.colorProperties = second.colorProperties)
    (hdimensions : first.dimensionProperties = second.dimensionProperties) :
    first.properties = second.properties := by
  have hnames : ∀ {categories : List Category}, categories.Nodup →
      first.properties.list categories = second.properties.list categories →
        ∀ category ∈ categories,
          first.properties.names category = second.properties.names category := by
    intro categories hn hlist category hc
    rw [← names_of_list hn hc, ← names_of_list hn hc, hlist]
  have hall : first.properties.names = second.properties.names := by
    funext category
    by_cases hs : category ∈ Category.styleOrder
    · exact hnames (by decide) hstyle category hs
    · have hrest : category = .color ∨ category = .dimension := by
        revert hs
        cases category <;> decide
      rcases hrest with rfl | rfl
      · exact hnames (List.nodup_singleton _) hcolors .color (List.mem_singleton_self _)
      · exact hnames (List.nodup_singleton _) hdimensions .dimension (List.mem_singleton_self _)
  rw [← Properties.ofFunction_names first.properties, hall, Properties.ofFunction_names]

/-- Triad by triad, the members are read and the triad is left behind. -/
theorem familyText_inj {first second : Schema} (hf : first.WellNamed) (hs : second.WellNamed)
    (hname : first.name = second.name) (h : familyText first = familyText second) :
    first = second := by
  have hstyle : first.styleProperties = second.styleProperties := by
    have hshown := triadText_append_inj (by rw [styleGroup, styleGroup, hname])
      (fun _ => legible_of_mem hf (by simp)) (fun _ => legible_of_mem hs (by simp)) h
    simp only [styleGroup, List.map_append, hname] at hshown
    exact properties_of_flat (List.append_cancel_right hshown)
  have hstyleGroup : styleGroup first = styleGroup second := by
    rw [styleGroup, styleGroup, hname, hstyle]
  rw [familyText, familyText, hstyleGroup] at h
  have hrest := List.append_cancel_left h
  have hcolors : first.colorProperties = second.colorProperties := by
    have hshown := triadText_append_inj (by rw [colorsGroup, colorsGroup, hname])
      (fun _ => legible_of_mem hf (by simp)) (fun _ => legible_of_mem hs (by simp)) hrest
    exact properties_of_flat hshown
  have hcolorsGroup : colorsGroup first = colorsGroup second := by
    rw [colorsGroup, colorsGroup, hname, hcolors]
  rw [hcolorsGroup] at hrest
  have hlast := List.append_cancel_left hrest
  have hdimensions : first.dimensionProperties = second.dimensionProperties := by
    have hshown := triadText_append_inj (by rw [dimensionsGroup, dimensionsGroup, hname])
      (fun _ => legible_of_mem hf (by simp)) (fun _ => legible_of_mem hs (by simp))
      (congrArg (· ++ []) hlast)
    exact properties_of_flat hshown
  have hproperties := properties_ext hstyle hcolors hdimensions
  cases first
  cases second
  exact congrArg₂ Schema.mk hname hproperties

/-- The characters of a unit, section by section. -/
theorem unitText_toList {schema : Schema} {package : String} (hp : package ≠ "") :
    '\n' :: (unitText (assemble schema) package).toList =
      paragraph 0 [.line generatedHeader] ++ (paragraph 0 [.line ("package " ++ package)] ++
        (paragraph 0 ((Imports.lines ⟨unitSymbols (assemble schema)⟩ package).map .line) ++
          (paragraph 0 (accessorNode (assemble schema).accessor).fragments ++
            familyText schema))) := by
  rw [unitText, FileNode.text, textOf_toList, cons_printedAll_separated]
  · simp only [unitFile, hp, ↓reduceIte, Artifacts.declarations, assemble, familyText,
      triadText, List.map_cons, List.map_nil, List.map_append, List.flatMap_cons,
      List.flatMap_append, List.cons_append, List.nil_append, List.append_assoc]
  · simp [unitFile, paragraph]

/-- An import line of the unit. -/
def IsImport (line : String) : Prop := ∃ name, line = "import " ++ name ∧ Text.Inline name

theorem isImport_of_mem {schema : Schema} {package line : String}
    (h : line ∈ Imports.lines ⟨unitSymbols (assemble schema)⟩ package) : IsImport line := by
  obtain ⟨symbol, hs, _, rfl⟩ := mem_lines.mp h
  obtain ⟨hp, hname⟩ := symbol_wellFormed hs
  refine ⟨symbol.qualified, rfl, ?_⟩
  rw [Symbol.qualified, inline_append, inline_append]
  exact ⟨⟨(inline_of_package (packageFault?_symbolPackages _ hp)).2, by decide⟩,
    inline_of_isIdentifier hname⟩

/-- The imports, if there are any, end before the documentation that comes next. -/
theorem imports_append_inj {first second : List String} (hf : ∀ line ∈ first, IsImport line)
    (hs : ∀ line ∈ second, IsImport line) {r s : List Char}
    (h : paragraph 0 (first.map .line) ++ '\n' :: '/' :: r =
      paragraph 0 (second.map .line) ++ '\n' :: '/' :: s) : r = s := by
  obtain ⟨rest, himport⟩ : ∃ rest, "import ".toList = 'i' :: rest := ⟨_, rfl⟩
  have hline : ∀ {line}, IsImport line → Text.Inline line ∧ line ≠ "" := by
    rintro line ⟨name, rfl, hname⟩
    exact ⟨inline_append.mpr ⟨by decide, hname⟩, by simp [← String.toList_inj, himport]⟩
  have hnone : ∀ {lines : List String} {line} {r s : List Char}, IsImport line →
      paragraph 0 ((line :: lines).map .line) ++ r ≠ '\n' :: '/' :: s := by
    rintro lines line r s ⟨name, rfl, _⟩ he
    simp [paragraph, printedAll, printed, row, Page.marginOf, himport] at he
  cases first with
  | nil =>
    cases second with
    | nil => simpa [paragraph] using h
    | cons b second => exact absurd h.symm (hnone (hs b List.mem_cons_self))
  | cons a first =>
    cases second with
    | nil => exact absurd h (hnone (hf a List.mem_cons_self))
    | cons b second =>
      have hlines := lines_append_inj (fun line hl => hline (hf line hl))
        (fun line hl => hline (hs line hl)) (List.cons.inj h).2
      exact (List.cons.inj hlines.2).2

/-- The line that documents the accessor. -/
def accessorOpening (name : String) : String :=
  "/** " ++ ("Provides the current [" ++ (name ++ "Style") ++
    "], computed once from an unconfigured builder by default") ++ " */"

theorem paragraph_accessor (schema : Schema) :
    ∃ rest, paragraph 0 (accessorNode (assemble schema).accessor).fragments =
      '\n' :: (row 0 (accessorOpening schema.name) ++ rest) :=
  ⟨printedAll 0 ((accessorNode (assemble schema).accessor).fragments.drop 1), rfl⟩

theorem package_append_inj {package other : String} (hp : Text.Inline package)
    (ho : Text.Inline other) {r s : List Char}
    (h : paragraph 0 [.line ("package " ++ package)] ++ r =
      paragraph 0 [.line ("package " ++ other)] ++ s) : package = other ∧ r = s := by
  have hline : ∀ {name : String}, Text.Inline name → Text.Inline ("package " ++ name) :=
    fun hn => inline_append.mpr ⟨by decide, hn⟩
  simp only [paragraph, printedAll, printed, List.isEmpty_cons, Bool.false_eq_true, ↓reduceIte,
    List.append_nil, List.cons_append, List.cons.injEq, true_and] at h
  obtain ⟨hsame, hrest⟩ := row_append_inj (hline hp) (hline ho) h
  rw [← String.toList_inj, String.toList_append, String.toList_append] at hsame
  exact ⟨String.toList_inj.mp (List.append_cancel_left hsame), hrest⟩

/-- Behind the imports, the accessor tells the name of the component. -/
theorem accessor_append_inj {first second : Schema} {package other : String}
    (hf : first.WellNamed) (hs : second.WellNamed) {r s : List Char}
    (h : paragraph 0 ((Imports.lines ⟨unitSymbols (assemble first)⟩ package).map .line) ++
        (paragraph 0 (accessorNode (assemble first).accessor).fragments ++ r) =
      paragraph 0 ((Imports.lines ⟨unitSymbols (assemble second)⟩ other).map .line) ++
        (paragraph 0 (accessorNode (assemble second).accessor).fragments ++ s)) :
    first.name = second.name ∧ r = s := by
  have hslash : ∀ (name : String) (after : List Char),
      ∃ tail, row 0 (accessorOpening name) ++ after = '/' :: tail := by
    intro name after
    simp [row, accessorOpening, Page.marginOf]
  have hinline : ∀ {schema : Schema}, schema.WellNamed →
      Text.Inline (accessorOpening schema.name) := by
    intro schema hw
    simp only [accessorOpening, inline_append]
    exact ⟨⟨by decide, ⟨by decide, inline_of_isIdentifier hw.component, by decide⟩, by decide⟩,
      by decide⟩
  obtain ⟨rest, haccessor⟩ := paragraph_accessor first
  obtain ⟨rest', haccessor'⟩ := paragraph_accessor second
  obtain ⟨tail, htail⟩ := hslash first.name (rest ++ r)
  obtain ⟨tail', htail'⟩ := hslash second.name (rest' ++ s)
  rw [haccessor, haccessor', List.cons_append, List.cons_append, List.append_assoc,
    List.append_assoc, htail, htail'] at h
  have htails : tail = tail' := imports_append_inj (fun _ hl => isImport_of_mem hl)
    (fun _ hl => isImport_of_mem hl) h
  rw [htails, ← htail'] at htail
  obtain ⟨hopening, hrest⟩ := row_append_inj (hinline hf) (hinline hs) htail
  have hname : first.name = second.name := by
    rw [← String.toList_inj] at hopening
    simp only [accessorOpening, String.toList_append, List.append_assoc] at hopening
    exact String.toList_inj.mp (List.append_cancel_right
      (List.append_cancel_left (List.append_cancel_left hopening)))
  have hsame : (assemble first).accessor = (assemble second).accessor := by
    simp only [assemble, hname]
  rw [hsame, haccessor', hname] at haccessor
  have hrests : rest' = rest := List.append_cancel_left (List.cons.inj haccessor).2
  rw [hrests] at hrest
  exact ⟨hname, List.append_cancel_left hrest⟩

/-- Equal texts come from equal packages and equal components: the package, the name of the
component and every property, under its category and in its place, can be read off the unit. -/
theorem unit_content_inj {first second : Schema} {package other : String}
    (hf : Lint.accepts first = true) (hs : Lint.accepts second = true)
    (hp : packageFault? package = none) (ho : packageFault? other = none)
    (h : (Language.kotlin.unit (assemble first) package).content =
      (Language.kotlin.unit (assemble second) other).content) :
    package = other ∧ first = second := by
  have hfirst := accepts_iff_wellNamed.mp hf
  have hsecond := accepts_iff_wellNamed.mp hs
  obtain ⟨hpne, hpackage⟩ := inline_of_package hp
  obtain ⟨hone, hother⟩ := inline_of_package ho
  have htext : unitText (assemble first) package = unitText (assemble second) other := h
  have hsections : '\n' :: (unitText (assemble first) package).toList =
      '\n' :: (unitText (assemble second) other).toList := by rw [htext]
  rw [unitText_toList hpne, unitText_toList hone] at hsections
  have hfromPackage := List.append_cancel_left hsections
  obtain ⟨hpackages, hfromImports⟩ := package_append_inj hpackage hother hfromPackage
  obtain ⟨hnames, hfamilies⟩ := accessor_append_inj hfirst hsecond hfromImports
  exact ⟨hpackages, familyText_inj hfirst hsecond hnames hfamilies⟩

/-- A component with a keyword among its text styles. -/
def toggleSchema : Schema where
  name := "Toggle"
  properties := { typography := ["label", "class"], color := ["thumb"] }

/-- The same component with the keyword among its shapes. -/
def movedSchema : Schema where
  name := "Toggle"
  properties := { typography := ["label"], shape := ["class"], color := ["thumb"] }

theorem toggle_content_inj :
    Lint.accepts toggleSchema = true ∧ Lint.accepts movedSchema = true ∧
      packageFault? "com.example" = none ∧
      ("com.example" = "com.example" ∧ toggleSchema = toggleSchema) ∧
      (Language.kotlin.unit (assemble toggleSchema) "com.example").content ≠
        (Language.kotlin.unit (assemble movedSchema) "com.example").content := by
  have htoggle : Lint.accepts toggleSchema = true := by decide +kernel
  have hmoved : Lint.accepts movedSchema = true := by decide +kernel
  have hpackage : packageFault? "com.example" = none := by decide +kernel
  refine ⟨htoggle, hmoved, hpackage, unit_content_inj htoggle htoggle hpackage hpackage rfl, ?_⟩
  intro h
  exact absurd (unit_content_inj htoggle hmoved hpackage hpackage h).2 (by decide)

end Kotlin
end StyleFamily
