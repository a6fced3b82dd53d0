import StyleFamily.Proofs.Kotlin.LineHeads
import StyleFamily.Proofs.Text.ByteOrder

/-!
# The imports of a unit

A unit imports five symbols in any case, and for each category that has properties the type of their
values and what their default is made of. The lines stand in the order of their bytes, each of them
once, and leave out what the unit's own package holds.
-/
namespace StyleFamily
namespace Kotlin
open Fragment

/-- The lines of any imports stand in the order of their bytes, so none stands twice. -/
theorem lines_pairwise (imports : Imports) (package : String) :
    (imports.lines package).Pairwise fun a b => Text.bytes a < Text.bytes b :=
  imports.table.lines_pairwise package

/-- The symbols that the properties of a category need: the type of their values and the parts of
their default, and for colors a plain color and what promotes it in the second setter. -/
def symbolsFor : Category → List Symbol
  | .shape =>
    [⟨"androidx.compose.ui.graphics", "Shape"⟩, ⟨"androidx.compose.ui.graphics", "RectangleShape"⟩]
  | .shadow => [⟨"com.sdds.compose.uikit.shadow", "ShadowAppearance"⟩]
  | .typography => [⟨"androidx.compose.ui.text", "TextStyle"⟩]
  | .floatValue => []
  | .color =>
    [⟨"com.sdds.compose.uikit.interactions", "InteractiveColor"⟩,
      ⟨"androidx.compose.ui.graphics", "Color"⟩,
      ⟨"com.sdds.compose.uikit.interactions", "asInteractive"⟩]
  | .dimension => [⟨"androidx.compose.ui.unit", "Dp"⟩, ⟨"androidx.compose.ui.unit", "dp"⟩]

/-- The symbols that the unit of a component needs. -/
def neededSymbols (schema : Schema) : List Symbol :=
  [⟨"androidx.compose.runtime", "ProvidableCompositionLocal"⟩,
    ⟨"androidx.compose.runtime", "compositionLocalOf"⟩,
    ⟨"androidx.compose.runtime", "structuralEqualityPolicy"⟩,
    ⟨"androidx.compose.runtime", "Immutable"⟩, ⟨"com.sdds.compose.uikit.style", "Style"⟩] ++
    (Category.all.filter fun category => schema.properties.names category ≠ []).flatMap symbolsFor

/-- The declarations of a family ask for what stands in the table. -/
theorem mem_symbolsFor {category : Category} {symbol : Symbol} :
    symbol ∈ symbolsFor category ↔ symbol ∈ categorySymbols category := by
  have hsame : symbolsFor category ⊆ categorySymbols category ∧
      categorySymbols category ⊆ symbolsFor category := by
    cases category <;> decide
  exact ⟨fun h => hsame.1 h, fun h => hsame.2 h⟩

/-- What the declarations ask for, one after another, is what the unit needs. -/
theorem mem_unitSymbols_iff_needed {schema : Schema} {symbol : Symbol} :
    symbol ∈ unitSymbols (assemble schema) ↔ symbol ∈ neededSymbols schema := by
  rw [mem_unitSymbols_iff, neededSymbols, List.mem_append]
  refine or_congr Iff.rfl ?_
  simp only [List.mem_flatMap, List.mem_filter, Category.mem_all, true_and, decide_eq_true_eq,
    mem_symbolsFor]
  constructor
  · rintro ⟨p, hp, hs⟩
    exact ⟨p.category, List.ne_nil_of_mem (mem_occurrences.mp hp), hs⟩
  · rintro ⟨category, hne, hs⟩
    obtain ⟨name, hname⟩ := List.exists_mem_of_ne_nil _ hne
    exact ⟨⟨name, category⟩, mem_occurrences.mpr hname, hs⟩

/-- The text of the accessor and the nine declarations. -/
def declarationsText (artifacts : Artifacts) : String :=
  textOf (separated ((accessorNode artifacts.accessor).fragments ::
    artifacts.declarations.map declarationFragments))

/-- A paragraph of lines: a break after each of them, and one before the first. -/
theorem paragraph_lines {texts : List String} (h : texts ≠ []) :
    paragraph 0 (texts.map .line) = '\n' :: (String.join (texts.map (· ++ "\n"))).toList := by
  have hends : texts.flatMap ended = (String.join (texts.map (· ++ "\n"))).toList := by
    rw [String.toList_join, List.flatMap_map]
    exact List.flatMap_congr fun line _ => by simp [ended]
  rw [paragraph, if_neg (by simpa using h), printedAll_eq, allLines_lines, hends]

/-- The import lines stand between the package and the declarations. -/
theorem unitText_imports (schema : Schema) (package : String) :
    unitText (assemble schema) package =
      "// Code generated by stylegen. DO NOT EDIT.\n\n" ++
        (if package = "" then "" else "package " ++ package ++ "\n\n") ++
          String.join ((unitFile (assemble schema) package).imports.map (· ++ "\n")) ++ "\n" ++
            declarationsText (assemble schema) := by
  have hline : ∀ text : String, paragraph 0 [.line text] = '\n' :: (text ++ "\n").toList := by
    intro text
    simpa using paragraph_lines (List.cons_ne_nil text [])
  have hdeclarations : ((accessorNode (assemble schema).accessor).fragments ::
      (assemble schema).declarations.map declarationFragments).flatMap (paragraph 0) =
        '\n' :: (declarationsText (assemble schema)).toList := by
    rw [declarationsText, textOf_toList, cons_printedAll_separated]
    simp [paragraph, LocalNode.fragments]
  have hunit : '\n' :: (unitText (assemble schema) package).toList =
      paragraph 0 [.line generatedHeader] ++
        (paragraph 0 (if package = "" then [] else [.line ("package " ++ package)]) ++
          (paragraph 0 ((unitFile (assemble schema) package).imports.map .line) ++
            '\n' :: (declarationsText (assemble schema)).toList)) := by
    rw [← hdeclarations, unitText, FileNode.text, textOf_toList, cons_printedAll_separated]
    · rfl
    · simp [unitFile, paragraph]
  have himports : (unitFile (assemble schema) package).imports ≠ [] := imports_ne_nil schema package
  rw [← String.toList_inj, ← List.cons_inj_right '\n', hunit, hline, paragraph_lines himports]
  by_cases hp : package = ""
  · simp [hp, generatedHeader, paragraph]
  · simp only [hp, ↓reduceIte, hline]
    simp [generatedHeader]

theorem filter_intercalate {α : Type} {p : α → Bool} {separator : List α}
    (hs : separator.filter p = []) (groups : List (List α)) :
    (separator.intercalate groups).filter p = groups.flatMap (·.filter p) := by
  induction groups with
  | nil => rfl
  | cons first rest ih =>
    rcases rest with _ | ⟨second, more⟩
    · simp
    · rw [List.intercalate_cons_cons, List.filter_append, List.filter_append, hs, List.append_nil,
        ih]
      rfl

/-- In an accepted component's unit, no other line opens as imports do. -/
theorem filter_opensImport {schema : Schema} (hw : schema.WellNamed) {package : String}
    (hp : packageFault? package = none) :
    (Text.lines (unitText (assemble schema) package)).filter opensImport =
      (unitFile (assemble schema) package).imports := by
  obtain ⟨_, hlines, hsections⟩ := sections_unitText hw hp
  have hpackage : opensImport ("package " ++ package) = false :=
    not_opensImport (begins_append "package " package) (by decide)
  have himports : (unitFile (assemble schema) package).imports.filter opensImport =
      (unitFile (assemble schema) package).imports := by
    refine List.filter_eq_self.mpr fun line hl => ?_
    obtain ⟨symbol, _, _, rfl⟩ := mem_lines.mp hl
    exact opensImport_after _
  have hnone : ∀ {fragments}, HeadedLines fragments →
      (allLines 0 fragments).filter opensImport = [] := fun h =>
    List.filter_eq_nil_iff.mpr fun line hl => by simp [(h line hl).not_opensImport]
  have hdeclarations : ((assemble schema).declarations.map fun declaration =>
      allLines 0 (declarationFragments declaration)).flatMap (·.filter opensImport) = [] := by
    rw [List.flatMap_eq_nil_iff, List.forall_mem_map]
    exact fun declaration _ => hnone (headedLines_declaration declaration)
  have hheader : [generatedHeader].filter opensImport = [] := by decide
  rw [hlines, hsections, filter_intercalate (by decide), List.flatMap_cons, List.flatMap_cons,
    List.flatMap_cons, List.flatMap_cons, hheader, hnone (headedLines_local _), hdeclarations,
    List.filter_singleton, hpackage]
  simp only [List.nil_append, List.append_nil]
  exact himports

/-- The text of a unit is its header and its package, the import lines, and the declarations, which
do not depend on the package; where component and package are valid, no other line of the text opens
as imports do. The import lines are those of the symbols that the unit needs from other packages, in
the order of their bytes and without repetition. Of the component they depend on nothing but which
categories have properties. -/
theorem unit_imports (schema : Schema) (package : String) :
    let text := (Language.kotlin.unit (assemble schema) package).content
    let imports := (unitFile (assemble schema) package).imports
    text = "// Code generated by stylegen. DO NOT EDIT.\n\n" ++
        (if package = "" then "" else "package " ++ package ++ "\n\n") ++
          String.join (imports.map (· ++ "\n")) ++ "\n" ++ declarationsText (assemble schema) ∧
      (Lint.accepts schema = true → packageFault? package = none →
        (Text.lines text).filter opensImport = imports) ∧
      imports.Pairwise (fun a b => Text.bytes a < Text.bytes b) ∧
      (∀ line, line ∈ imports ↔ ∃ symbol ∈ neededSymbols schema, symbol.package ≠ package ∧
        line = "import " ++ symbol.package ++ "." ++ symbol.name) ∧
      ∀ other : Schema,
        (∀ category, other.properties.names category = [] ↔
          schema.properties.names category = []) →
        (unitFile (assemble other) package).imports = imports := by
  intro text imports
  have hmem : ∀ (schema : Schema) line, line ∈ (unitFile (assemble schema) package).imports ↔
      ∃ symbol ∈ neededSymbols schema, symbol.package ≠ package ∧
        line = "import " ++ symbol.package ++ "." ++ symbol.name := by
    intro schema line
    rw [unitFile, mem_lines]
    simp only [mem_unitSymbols_iff_needed, Symbol.qualified, String.append_assoc]
  refine ⟨unitText_imports schema package, fun h hp => ?_, lines_pairwise _ _, hmem schema,
    fun other hempty => ?_⟩
  · exact filter_opensImport (accepts_iff_wellNamed.mp h) hp
  · refine eq_of_pairwise_bytes (lines_pairwise _ _) (lines_pairwise _ _) fun line => ?_
    have hneeded : neededSymbols other = neededSymbols schema := by
      simp only [neededSymbols, ne_eq, hempty]
    rw [hmem, hmem, hneeded]

/-- A component with a property in each category. -/
def playerSchema : Schema where
  name := "Player"
  properties :=
    { shape := ["cover"], shadow := ["raised"], typography := ["title"], floatValue := ["progress"]
      color := ["track"], dimension := ["padding"] }

/-- Its unit shows every import, and so does that of a component with more properties. -/
theorem player_imports :
    Lint.accepts playerSchema = true ∧ packageFault? "com.example" = none ∧
      (Text.lines (Language.kotlin.unit (assemble playerSchema) "com.example").content).filter
          opensImport =
        ["import androidx.compose.runtime.Immutable",
          "import androidx.compose.runtime.ProvidableCompositionLocal",
          "import androidx.compose.runtime.compositionLocalOf",
          "import androidx.compose.runtime.structuralEqualityPolicy",
          "import androidx.compose.ui.graphics.Color",
          "import androidx.compose.ui.graphics.RectangleShape",
          "import androidx.compose.ui.graphics.Shape",
          "import androidx.compose.ui.text.TextStyle",
          "import androidx.compose.ui.unit.Dp",
          "import androidx.compose.ui.unit.dp",
          "import com.sdds.compose.uikit.interactions.InteractiveColor",
          "import com.sdds.compose.uikit.interactions.asInteractive",
          "import com.sdds.compose.uikit.shadow.ShadowAppearance",
          "import com.sdds.compose.uikit.style.Style"] ∧
      (unitFile (assemble { playerSchema with
          name := "Queue", properties.color := ["thumb", "track"] }) "com.example").imports =
        (unitFile (assemble playerSchema) "com.example").imports := by
  have haccepts : Lint.accepts playerSchema = true := by decide +kernel
  have hpackage : packageFault? "com.example" = none := by decide +kernel
  obtain ⟨_, hlines, _, _, hsame⟩ := unit_imports playerSchema "com.example"
  refine ⟨haccepts, hpackage, (hlines haccepts hpackage).trans (by decide +kernel),
    hsame _ fun category => ?_⟩
  cases category <;> decide

end Kotlin
end StyleFamily
