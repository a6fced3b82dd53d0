import StyleFamily.Proofs.Kotlin.Symbols

/-!
# Imported names and declared names

A name that a unit both imports and declares means the imported thing throughout the unit. Among the
components that the standard lints accept this happens to one: `Text`, as soon as it has a text
style, whose type then hides behind the style of the component.
-/
namespace StyleFamily
namespace Kotlin

/-- The name that an import line brings in: its last component. -/
def importedName (line : String) : String :=
  String.ofList (line.toList.reverse.takeWhile (· ≠ '.')).reverse

/-- The names that a unit imports. -/
def importedNames (artifacts : Artifacts) (package : String) : List String :=
  (unitFile artifacts package).imports.map importedName

/-- The ten names that a unit declares: the accessor and the nine types. -/
def declaredNames (artifacts : Artifacts) : List String :=
  artifacts.accessor.name :: artifacts.declarations.map Declaration.name

/-- The type of text styles. -/
def textStyle : Symbol := ⟨composeText, "TextStyle"⟩

theorem importedName_qualified {schema : Schema} {symbol : Symbol}
    (h : symbol ∈ unitSymbols (assemble schema)) :
    importedName ("import " ++ symbol.qualified) = symbol.name := by
  have hdot : '.' ∉ symbol.name.toList :=
    notMem_of_isIdentifier (symbol_wellFormed h).2 (by decide)
  have hline : ("import " ++ symbol.qualified).toList.reverse =
      symbol.name.toList.reverse ++ '.' :: (("import " ++ symbol.package).toList.reverse) := by
    simp [Symbol.qualified]
  have hname : ∀ c ∈ symbol.name.toList.reverse, decide (c ≠ '.') = true := by
    intro c hc
    rw [decide_eq_true_eq]
    rintro rfl
    exact hdot (List.mem_reverse.mp hc)
  rw [importedName, hline, List.takeWhile_append_of_pos hname]
  simp

/-- The imported names are those of the symbols from other packages. -/
theorem mem_importedNames {schema : Schema} {package name : String} :
    name ∈ importedNames (assemble schema) package ↔
      ∃ symbol ∈ unitSymbols (assemble schema), symbol.package ≠ package ∧ symbol.name = name := by
  simp only [importedNames, unitFile, List.mem_map, mem_lines]
  constructor
  · rintro ⟨_, ⟨symbol, hs, hp, rfl⟩, rfl⟩
    exact ⟨symbol, hs, hp, (importedName_qualified hs).symm⟩
  · rintro ⟨symbol, hs, hp, rfl⟩
    exact ⟨_, ⟨symbol, hs, hp, rfl⟩, importedName_qualified hs⟩

/-- Text styles are asked for with the first text style of the component. -/
theorem textStyle_mem_unitSymbols {schema : Schema} :
    textStyle ∈ unitSymbols (assemble schema) ↔ schema.properties.typography ≠ [] := by
  constructor
  · intro h
    have hfixed : textStyle ∉ fixedSymbols := by decide
    have hcategory : ∀ category, textStyle ∈ categorySymbols category → category = .typography := by
      intro category
      cases category <;> decide
    rcases mem_unitSymbols h with h | ⟨p, hp, h⟩
    · exact absurd h hfixed
    · have hname := mem_occurrences.mp hp
      rw [hcategory p.category h] at hname
      exact List.ne_nil_of_mem hname
  · intro h
    obtain ⟨name, hname⟩ := List.exists_mem_of_ne_nil _ h
    exact mem_unitSymbols_iff.mpr (.inr ⟨⟨name, .typography⟩, mem_occurrences.mpr hname,
      (by decide : textStyle ∈ categorySymbols .typography)⟩)

/-- A declared name is that of a style or ends in another word. -/
theorem declared_cases {schema : Schema} {name : String}
    (h : name ∈ declaredNames (assemble schema)) :
    (∃ front ∈ ["", "Default", "Local"], name = front ++ (schema.name ++ "Style")) ∨
      ∃ ending ∈ ["Builder", "Colors", "Dimensions"], ending.toList <:+ name.toList := by
  have hending : ∀ (ending : String) {front back : String},
      ending ∈ ["Builder", "Colors", "Dimensions"] → ending.toList <:+ back.toList →
        ∃ ending ∈ ["Builder", "Colors", "Dimensions"],
          ending.toList <:+ (front ++ back).toList := by
    intro ending front back he hs
    refine ⟨ending, he, ?_⟩
    rw [String.toList_append]
    exact hs.trans (List.suffix_append _ _)
  have hnames : declaredNames (assemble schema) = (StyleNames.ofBase schema.name).accessor ::
      (StyleNames.ofBase schema.name).declarations := rfl
  simp only [hnames, StyleNames.ofBase, StyleNames.declarations, List.mem_cons, List.not_mem_nil,
    or_false] at h
  rcases h with rfl | rfl | rfl | rfl | rfl | rfl | rfl | rfl | rfl | rfl
  · exact .inl ⟨"Local", by decide, String.append_assoc⟩
  · exact .inl ⟨"", by decide, String.empty_append.symm⟩
  · exact .inr (hending "Builder" (by decide) (by decide))
  · exact .inl ⟨"Default", by decide, String.append_assoc⟩
  · exact .inr (hending "Colors" (by decide) (by decide))
  · exact .inr (hending "Builder" (by decide) (by decide))
  · exact .inr (hending "Colors" (by decide) (by decide))
  · exact .inr (hending "Dimensions" (by decide) (by decide))
  · exact .inr (hending "Builder" (by decide) (by decide))
  · exact .inr (hending "Dimensions" (by decide) (by decide))

/-- Only the style of `Text` is called like the type of text styles. -/
theorem component_of_textStyle {front component : String} (hf : front ∈ ["", "Default", "Local"])
    (h : front ++ (component ++ "Style") = textStyle.name) : component = "Text" := by
  have hsplit : textStyle.name = "Text" ++ "Style" := by decide
  have hfront : front ++ component = "Text" := by
    rw [hsplit, ← String.append_assoc, ← String.toList_inj, String.toList_append,
      @String.toList_append "Text"] at h
    exact String.toList_inj.mp (List.append_cancel_right h)
  have hlength := congrArg String.length hfront
  have hlengths : "Text".length = 4 ∧ "Default".length = 7 ∧ "Local".length = 5 := by decide
  rw [String.length_append] at hlength
  simp only [List.mem_cons, List.not_mem_nil, or_false] at hf
  rcases hf with rfl | rfl | rfl
  · rwa [String.empty_append] at hfront
  · omega
  · omega

/-- No symbol is called like a builder, and of the styles only that of `Text` is called like one: the
base of styles would be the style of a component without a name. -/
theorem symbol_of_declared {schema : Schema} (hne : schema.name ≠ "") {symbol : Symbol}
    (hs : symbol ∈ unitSymbols (assemble schema))
    (hd : symbol.name ∈ declaredNames (assemble schema)) :
    symbol = textStyle ∧ schema.name = "Text" := by
  rcases declared_cases hd with ⟨front, hf, hname⟩ | ⟨ending, he, hsuffix⟩
  · have hfixed : ∀ symbol ∈ fixedSymbols, "Style".toList <:+ symbol.name.toList →
        symbol.name = "Style" ∨ symbol = textStyle := by decide
    have hstyle : "Style".toList <:+ symbol.name.toList := by
      rw [hname, String.toList_append, String.toList_append]
      exact (List.suffix_append _ _).trans (List.suffix_append _ _)
    have hsymbol : "Style".toList <:+ symbol.name.toList →
        symbol.name = "Style" ∨ symbol = textStyle := by
      refine forall_unitSymbols hfixed (fun category => ?_) hs
      cases category <;> decide
    rcases hsymbol hstyle with hbase | rfl
    · have hlength := congrArg String.length (hname.symm.trans hbase)
      rw [String.length_append, String.length_append] at hlength
      have hempty : schema.name.length = 0 := by omega
      exact absurd (String.length_eq_zero_iff.mp hempty) hne
    · exact ⟨rfl, component_of_textStyle hf hname.symm⟩
  · have hfixed : ∀ symbol ∈ fixedSymbols, ∀ ending ∈ ["Builder", "Colors", "Dimensions"],
        ¬ending.toList <:+ symbol.name.toList := by decide
    have hnone : ∀ ending ∈ ["Builder", "Colors", "Dimensions"],
        ¬ending.toList <:+ symbol.name.toList := by
      refine forall_unitSymbols hfixed (fun category => ?_) hs
      cases category <;> decide
    exact absurd hsuffix (hnone ending he)

/-- A name that is imported and declared is that of text styles, and the component is `Text`. -/
theorem clash_iff {schema : Schema} (h : Lint.accepts schema = true) {package name : String} :
    name ∈ importedNames (assemble schema) package ∧ name ∈ declaredNames (assemble schema) ↔
      name = textStyle.name ∧ schema.name = "Text" ∧ schema.properties.typography ≠ [] ∧
        package ≠ textStyle.package := by
  constructor
  · rintro ⟨himported, hdeclared⟩
    obtain ⟨symbol, hs, hp, rfl⟩ := mem_importedNames.mp himported
    have hne : schema.name ≠ "" := by
      intro he
      have hname := (accepts_iff_wellNamed.mp h).component
      rw [he] at hname
      exact absurd hname (by decide)
    obtain ⟨rfl, htext⟩ := symbol_of_declared hne hs hdeclared
    exact ⟨rfl, htext, textStyle_mem_unitSymbols.mp hs, Ne.symm hp⟩
  · rintro ⟨rfl, hname, htypography, hp⟩
    refine ⟨mem_importedNames.mpr ⟨textStyle, textStyle_mem_unitSymbols.mpr htypography,
      Ne.symm hp, rfl⟩, ?_⟩
    have hstyle : schema.name ++ "Style" = textStyle.name := by
      rw [hname]
      decide
    rw [← hstyle]
    exact List.mem_cons_of_mem _ List.mem_cons_self

/-- A component called `Text` with a text style. -/
def textSchema : Schema where
  name := "Text"
  properties := { typography := ["title"] }

theorem text_clash :
    Lint.accepts textSchema = true ∧ packageFault? "com.example" = none ∧
      ("TextStyle" ∈ importedNames (assemble textSchema) "com.example" ∧
        "TextStyle" ∈ declaredNames (assemble textSchema)) := by
  have h : Lint.accepts textSchema = true := by decide +kernel
  exact ⟨h, by decide +kernel, (clash_iff h).mpr ⟨rfl, rfl, by decide, by decide⟩⟩

/-- An accepted component and a valid package whose unit imports a type and declares another one of
the same name. -/
theorem text_imported_and_declared :
    Lint.accepts textSchema = true ∧ packageFault? "com.example" = none ∧
      "import androidx.compose.ui.text.TextStyle" ∈
        (unitFile (assemble textSchema) "com.example").imports ∧
      "TextStyle" ∈ declaredNames (assemble textSchema) := by
  decide +kernel

end Kotlin
end StyleFamily
