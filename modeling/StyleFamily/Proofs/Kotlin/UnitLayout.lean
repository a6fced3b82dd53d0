import StyleFamily.Proofs.Kotlin.TidyFamily

/-!
# Layout of a unit

The unit of an accepted component is well laid out and has thirteen sections: header, package,
imports, the accessor and the nine declarations. What a section declares is read off the lines that
have no margin.
-/
namespace StyleFamily
namespace Kotlin
open Text Fragment

/-- What a line begins with that declares something in the package or in its file alone. -/
def declaringWords : List String :=
  let words := ["val ", "var ", "fun ", "interface ", "class ", "object ", "data class ",
    "data object "]
  words ++ words.map ("private " ++ ·)

/-- The name that a line declares in the package, if it does. -/
def declaredIn? (line : String) : Option String :=
  (declaringWords.find? (·.toList.isPrefixOf line.toList)).map fun opening =>
    String.ofList ((line.toList.drop opening.toList.length).takeWhile isNamePart)

/-- The names that lines declare in the package, in their order. -/
def topLevelNames (lines : List String) : List String := lines.filterMap declaredIn?

/-- None of the openings begins another one. -/
theorem find?_declaringWords {opening : String} (ho : opening ∈ declaringWords)
    (rest : List Char) :
    declaringWords.find? (·.toList.isPrefixOf (opening.toList ++ rest)) = some opening := by
  have hcode : ∀ a ∈ declaringWords, ∀ b ∈ declaringWords, a.toList <+: b.toList → a = b := by
    decide +kernel
  have hopening : opening.toList <+: opening.toList ++ rest := List.prefix_append _ _
  have hsome : (declaringWords.find?
      (·.toList.isPrefixOf (opening.toList ++ rest))).isSome = true :=
    List.find?_isSome.mpr ⟨opening, ho, List.isPrefixOf_iff_prefix.mpr hopening⟩
  obtain ⟨found, hfound⟩ := Option.isSome_iff_exists.mp hsome
  have hm := List.mem_of_find?_eq_some hfound
  have hprefix : found.toList <+: opening.toList ++ rest := by
    simpa using List.find?_some hfound
  rcases List.prefix_or_prefix_of_prefix hprefix hopening with h | h
  · rw [hfound, hcode found hm opening ho h]
  · rw [hfound, hcode opening ho found hm h]

theorem declaredIn?_eq {opening name rest : String} (ho : opening ∈ declaringWords)
    (hn : isIdentifier name = true) (hr : Opens rest) :
    declaredIn? (opening ++ name ++ rest) = some name := by
  have hrest : rest.toList.takeWhile isNamePart = [] := by
    rcases hlist : rest.toList with _ | ⟨c, more⟩
    · rfl
    · have hc : isWordPart c = false := by simpa [Opens, hlist] using hr
      exact List.takeWhile_cons_of_neg (by simp [(Bool.or_eq_false_iff.mp hc).1])
  rw [declaredIn?, String.toList_append, String.toList_append, List.append_assoc,
    find?_declaringWords ho, Option.map_some, List.drop_left,
    List.takeWhile_append_of_pos fun c => isNamePart_of_mem hn, hrest, List.append_nil,
    String.ofList_toList]

/-- Documentation, margins, annotations and closing brackets declare nothing: no opening begins with
one of their signs. -/
theorem declaredIn?_eq_none {line : String}
    (h : ∀ c ∈ line.toList.head?, c ∈ [' ', '/', '@', ')', '}']) : declaredIn? line = none := by
  have hletters : ∀ opening ∈ declaringWords,
      opening.toList.head?.any (· ∉ [' ', '/', '@', ')', '}']) = true := by decide
  rw [declaredIn?, Option.map_eq_none_iff, List.find?_eq_none]
  intro opening ho hp
  obtain ⟨c, hc, hletter⟩ := (Option.any_eq_true _ _).mp (hletters opening ho)
  obtain ⟨rest, hrest⟩ := List.isPrefixOf_iff_prefix.mp hp
  obtain ⟨more, hmore⟩ := List.head?_eq_some_iff.mp hc
  have hmark : c ∈ [' ', '/', '@', ')', '}'] := by
    refine h c ?_
    rw [← hrest, hmore]
    rfl
  simp [hmark] at hletter

theorem declaredIn?_after {mark : String}
    (hm : mark.toList.head?.any (· ∈ [' ', '/', '@', ')', '}']) = true) (rest : String) :
    declaredIn? (mark ++ rest) = none := by
  obtain ⟨c, hc, hmark⟩ := (Option.any_eq_true _ _).mp hm
  obtain ⟨more, hmore⟩ := List.head?_eq_some_iff.mp hc
  refine declaredIn?_eq_none fun d hd => ?_
  rw [String.toList_append, hmore] at hd
  obtain rfl : c = d := Option.some.inj hd
  exact of_decide_eq_true hmark

mutual
/-- Below the top level, a line that is not blank has a margin. -/
theorem head_linesOf (depth : Nat) (fragment : Fragment) :
    ∀ line ∈ linesOf (depth + 1) fragment, ∀ c ∈ line.toList.head?, c = ' ' := by
  have hmargin : ∀ text, ∀ c ∈ (lineAt (depth + 1) text).toList.head?, c = ' ' := by
    intro text c hc
    have hspace : (lineAt (depth + 1) text).toList.head? = some ' ' := by
      simp [lineAt, List.replicate_succ, String.join_cons, Page.fourSpaces]
    exact (Option.some.inj (hspace.symm.trans hc)).symm
  cases fragment with
  | line text => exact List.forall_mem_singleton.mpr (hmargin text)
  | blank => simp [linesOf]
  | doc text => exact List.forall_mem_singleton.mpr (hmargin _)
  | block opening body closing =>
    rw [linesOf, List.forall_mem_append, List.forall_mem_cons, List.forall_mem_singleton]
    exact ⟨⟨hmargin opening, head_allLines (depth + 1) body⟩, hmargin closing⟩
  | nested body => exact head_allLines (depth + 1) body

theorem head_allLines (depth : Nat) (fragments : List Fragment) :
    ∀ line ∈ allLines (depth + 1) fragments, ∀ c ∈ line.toList.head?, c = ' ' := by
  cases fragments with
  | nil => exact List.forall_mem_nil _
  | cons fragment rest =>
    exact List.forall_mem_append.mpr ⟨head_linesOf depth fragment, head_allLines depth rest⟩
end

section
variable {front back body : List Fragment} {opening closing : String}

theorem topLevelNames_append :
    topLevelNames (allLines 0 (front ++ back)) =
      topLevelNames (allLines 0 front) ++ topLevelNames (allLines 0 back) := by
  rw [allLines_append, topLevelNames, List.filterMap_append]
  rfl

theorem topLevelNames_cons (first second : Fragment) (rest : List Fragment) :
    topLevelNames (allLines 0 (first :: second :: rest)) =
      topLevelNames (allLines 0 [first]) ++ topLevelNames (allLines 0 (second :: rest)) :=
  @topLevelNames_append [first] (second :: rest)

theorem topLevelNames_line (text : String) :
    topLevelNames (allLines 0 [.line text]) = (declaredIn? text).toList := by
  rw [allLines_line, lineAt_zero, topLevelNames]
  cases h : declaredIn? text <;> simp [h]

theorem topLevelNames_nested : topLevelNames (allLines 0 [.nested body]) = [] := by
  rw [allLines_nested, topLevelNames, List.filterMap_eq_nil_iff]
  intro line hl
  refine declaredIn?_eq_none fun c hc => ?_
  rw [head_allLines 0 body line hl c hc]
  decide

theorem topLevelNames_docs (text : Option String) :
    topLevelNames (allLines 0 (docs text)) = [] := by
  rcases text with _ | text
  · rfl
  · have hdoc : allLines 0 (docs (some text)) = allLines 0 [.line ("/** " ++ text ++ " */")] := rfl
    rw [hdoc, topLevelNames_line, String.append_assoc, declaredIn?_after (by decide)]
    rfl

/-- A block declares what its first line does. -/
theorem topLevelNames_block (hc : declaredIn? closing = none) :
    topLevelNames (allLines 0 [.block opening body closing]) = (declaredIn? opening).toList := by
  rw [allLines_parts, topLevelNames_append, topLevelNames_append, topLevelNames_nested,
    topLevelNames_line, topLevelNames_line, hc]
  simp

/-- A header declares the same with a body and without. -/
theorem topLevelNames_withBody {header : String} {name : Option String}
    (hline : declaredIn? header = name) (hopened : declaredIn? (header ++ " \x7b") = name) :
    topLevelNames (allLines 0 [ClassNode.withBody header body]) = name.toList := by
  have hclosing : declaredIn? "\x7d" = none := by decide
  rw [ClassNode.withBody]
  split
  · rw [topLevelNames_line, hline]
  · rw [Fragment.braced, topLevelNames_block hclosing, hopened]

end

theorem opens_supertypeClause {supertypes : List String} (h : ∀ name ∈ supertypes, Phrase name) :
    Opens (supertypeClause supertypes) ∧ Opens (supertypeClause supertypes ++ " \x7b") := by
  rcases supertypeClause_cases h with he | ⟨names, he, _⟩
  · rw [he]
    decide
  · rw [he, String.append_assoc]
    exact ⟨opens_append (by decide) (by decide) _, opens_append (by decide) (by decide) _⟩

theorem topLevelNames_interface {i : InterfaceNode} (h : i.Phrased)
    (hn : isIdentifier i.name = true) : topLevelNames (allLines 0 i.fragments) = [i.name] := by
  have hannotations : topLevelNames (allLines 0 (i.annotations.map fun a => .line ("@" ++ a))) =
      [] := by
    rw [allLines_map_line, topLevelNames, List.filterMap_eq_nil_iff, List.forall_mem_map]
    intro name _
    rw [lineAt_zero]
    exact declaredIn?_after (by decide) name
  have hopening : declaredIn? ("interface " ++ i.name ++ supertypeClause i.supertypes ++ " \x7b") =
      some i.name := by
    rw [String.append_assoc]
    exact declaredIn?_eq (by decide) hn (opens_supertypeClause h.supertypes).2
  rw [InterfaceNode.fragments, topLevelNames_append, topLevelNames_append, topLevelNames_docs,
    hannotations, Fragment.braced, topLevelNames_block (by decide), hopening]
  rfl

/-- Only private data classes stand on the top level. -/
theorem topLevelNames_class {node : ClassNode} (h : node.Phrased)
    (hn : isIdentifier node.name = true) (hp : node.isPrivate = true)
    (hf : node.flavor ≠ .plain) : topLevelNames (allLines 0 node.fragments) = [node.name] := by
  obtain ⟨name, flavor, doc, isPrivate, constructor, supertypes, properties, functions, nested⟩ :=
    node
  obtain rfl : isPrivate = true := hp
  obtain ⟨opening, ho, hopening⟩ : ∃ opening ∈ declaringWords,
      ClassNode.heading name flavor true = opening ++ name := by
    cases flavor with
    | plain => exact absurd rfl hf
    | data => exact ⟨"private data class ", by decide, rfl⟩
    | dataObject => exact ⟨"private data object ", by decide, rfl⟩
  have hclause := opens_supertypeClause (by cases h with | mk _ _ _ hs => exact hs)
  have hdeclared : ∀ rest, Opens rest → declaredIn? (opening ++ name ++ rest) = some name :=
    fun rest hr => declaredIn?_eq ho hn hr
  have hclosing : ∀ rest, declaredIn? (")" ++ rest) = none := declaredIn?_after (by decide)
  rw [ClassNode.fragments, ClassNode.layout, topLevelNames_append, topLevelNames_docs,
    List.nil_append, hopening]
  split
  · refine topLevelNames_withBody (hdeclared _ hclause.1) ?_
    rw [String.append_assoc]
    exact hdeclared _ hclause.2
  · have hlast : ∀ body, topLevelNames
        (allLines 0 [ClassNode.withBody (")" ++ supertypeClause supertypes) body]) = [] := by
      refine fun body => topLevelNames_withBody (hclosing _) ?_
      rw [String.append_assoc]
      exact hclosing _
    rw [topLevelNames_cons, topLevelNames_cons, topLevelNames_nested, hlast,
      topLevelNames_line, hdeclared "(" (by decide)]
    rfl

theorem topLevelNames_local {l : LocalNode} (hn : isIdentifier l.name = true) :
    topLevelNames (allLines 0 l.fragments) = [l.name] := by
  have hline : declaredIn? ("val " ++ l.name ++ ": ProvidableCompositionLocal<" ++ l.type ++
      "> =") = some l.name := by
    rw [String.append_assoc, String.append_assoc]
    exact declaredIn?_eq (by decide) hn (opens_append (by decide) (by decide) _)
  rw [LocalNode.fragments, topLevelNames_append, topLevelNames_docs, List.nil_append,
    topLevelNames_cons, topLevelNames_nested, topLevelNames_line, hline]
  rfl

/-- The three declarations of a triad declare its three names. -/
theorem topLevelNames_triad {schema : Schema} {group : PropertyGroup}
    (h : Captioned schema group) (kind : TriadKind) {doc : String} (hd : Inert doc) :
    (Triad.ofGroup kind group doc).declarations.map
        (fun declaration => topLevelNames (allLines 0 (declarationFragments declaration))) =
      [[group.result], [group.builder], [group.defaultImpl]] := by
  have hname : ∀ {name : String}, name ∈ declaredNames (assemble schema) →
      isIdentifier name = true := fun hm => isIdentifier_declared h.named hm
  have hcontract := topLevelNames_interface (phrased_contract h kind hd) (hname h.result)
  have hbuilder := topLevelNames_interface (phrased_builder h) (hname h.builder)
  have hflavor : (classNode group.defaultImplementation).flavor ≠ .plain := by
    rw [PropertyGroup.defaultImplementation, classNode]
    split <;> simp [flavorOf]
  have hclass := topLevelNames_class (phrased_defaultImplementation h) (hname h.defaultImpl) rfl
    hflavor
  exact congrArg₂ List.cons hcontract (congrArg₂ List.cons hbuilder (congrArg (· :: []) hclass))

/-- The groups of fragments that a unit in a package of its own consists of. -/
def unitGroups (artifacts : Artifacts) (package : String) : List (List Fragment) :=
  [.line generatedHeader] :: [.line ("package " ++ package)] ::
    (Imports.lines ⟨unitSymbols artifacts⟩ package).map .line ::
      (accessorNode artifacts.accessor).fragments ::
        artifacts.declarations.map declarationFragments

theorem unitText_eq (artifacts : Artifacts) {package : String} (hp : package ≠ "") :
    unitText artifacts package = textOf (separated (unitGroups artifacts package)) := by
  rw [unitText, FileNode.text]
  simp only [unitFile, hp, ↓reduceIte]
  rfl

/-- No package is that of all symbols. -/
theorem imports_ne_nil (schema : Schema) (package : String) :
    Imports.lines ⟨unitSymbols (assemble schema)⟩ package ≠ [] := by
  have hfixed : ∃ symbol ∈ fixedSymbols, symbol.package ≠ package := by
    by_cases hpackage : composeRuntime = package
    · refine ⟨styleBase, by decide, ?_⟩
      rw [← hpackage]
      decide
    · exact ⟨immutable, by decide, hpackage⟩
  obtain ⟨symbol, hs, hpackage⟩ := hfixed
  exact List.ne_nil_of_mem
    (mem_lines.mpr ⟨symbol, mem_unitSymbols_iff.mpr (.inl hs), hpackage, rfl⟩)

theorem phrase_import {schema : Schema} {package line : String}
    (h : line ∈ Imports.lines ⟨unitSymbols (assemble schema)⟩ package) : Phrase line := by
  obtain ⟨symbol, hs, _, rfl⟩ := mem_lines.mp h
  obtain ⟨hp, hname⟩ := symbol_wellFormed hs
  exact Phrase.after (by decide) ((phrase_of_package (packageFault?_symbolPackages _ hp)).around
    (by decide) (phrase_of_isIdentifier hname))

theorem phrased_accessor {schema : Schema} (hw : schema.WellNamed) :
    (accessorNode (assemble schema).accessor).Phrased := by
  have hname : (assemble schema).accessor.name ∈ declaredNames (assemble schema) :=
    List.mem_cons_self
  have hstyle : (assemble schema).accessor.style ∈ declaredNames (assemble schema) :=
    List.mem_cons_of_mem _ List.mem_cons_self
  have hs : Phrase (assemble schema).accessor.style :=
    phrase_of_isIdentifier (isIdentifier_declared hw hstyle)
  have hdefault : Phrase ((assemble schema).accessor.style ++ "." ++ MemberName.factory ++ "()." ++
      MemberName.build ++ "()") :=
    ((hs.around (by decide) (by decide : Phrase MemberName.factory)).around (by decide)
      (by decide : Phrase MemberName.build)).before (by decide)
  have hdoc : Inert ("Provides the current [" ++ (assemble schema).accessor.style ++
      "], computed once from an unconfigured builder by default") :=
    Inert.insert (by decide) hs.1
  refine ⟨phrase_of_isIdentifier (isIdentifier_declared hw hname), hs, hdefault, ?_⟩
  rintro text ⟨⟩
  exact hdoc

theorem tidy_unitGroups {schema : Schema} (hw : schema.WellNamed) {package : String}
    (hp : packageFault? package = none) :
    ∀ group ∈ unitGroups (assemble schema) package, Tidy group := by
  obtain ⟨hs, hc, hd⟩ := captioned_groups hw
  have himports : Tidy ((Imports.lines ⟨unitSymbols (assemble schema)⟩ package).map .line) := by
    rw [← List.flatMap_pure_eq_map]
    exact Tidy.flatMap (imports_ne_nil schema package) fun line hl => Tidy.line (phrase_import hl)
  have hdeclarations : ∀ declaration ∈ (assemble schema).declarations,
      Tidy (declarationFragments declaration) := by
    rw [Artifacts.declarations, List.forall_mem_append, List.forall_mem_append]
    exact ⟨⟨tidy_triad hs .style (by decide : Inert styleDoc),
      tidy_triad hc .colors (by decide : Inert colorsDoc)⟩,
      tidy_triad hd .dimensions (by decide : Inert dimensionsDoc)⟩
  rw [unitGroups]
  simp only [List.forall_mem_cons]
  exact ⟨Tidy.line (by decide), Tidy.line (Phrase.after (by decide) (phrase_of_package hp)),
    himports, tidy_local (phrased_accessor hw), List.forall_mem_map.mpr hdeclarations⟩

/-- The nine declarations, section by section. -/
theorem topLevelNames_declarations {schema : Schema} (hw : schema.WellNamed) :
    (assemble schema).declarations.map
        (fun declaration => topLevelNames (allLines 0 (declarationFragments declaration))) =
      (StyleNames.ofBase schema.name).declarations.map fun name => [name] := by
  obtain ⟨hs, hc, hd⟩ := captioned_groups hw
  have hstyle := topLevelNames_triad hs .style (by decide : Inert styleDoc)
  have hcolors := topLevelNames_triad hc .colors (by decide : Inert colorsDoc)
  have hdimensions := topLevelNames_triad hd .dimensions (by decide : Inert dimensionsDoc)
  rw [Artifacts.declarations, List.map_append, List.map_append]
  exact congrArg₂ (· ++ ·) (congrArg₂ (· ++ ·) hstyle hcolors) hdimensions

/-- The sections of a unit are the lines of its groups. -/
theorem sections_unitText {schema : Schema} (hw : schema.WellNamed) {package : String}
    (hp : packageFault? package = none) :
    LaidOut (unitText (assemble schema) package) ∧
      lines (unitText (assemble schema) package) =
        [""].intercalate (sections (unitText (assemble schema) package)) ∧
      sections (unitText (assemble schema) package) =
        [generatedHeader] :: ["package " ++ package] ::
          Imports.lines ⟨unitSymbols (assemble schema)⟩ package ::
            allLines 0 (accessorNode (assemble schema).accessor).fragments ::
              (assemble schema).declarations.map
                fun declaration => allLines 0 (declarationFragments declaration) := by
  have hne : unitGroups (assemble schema) package ≠ [] := List.cons_ne_nil _ _
  have hline : ∀ text : String, allLines 0 [.line text] = [text] := fun text =>
    allLines_lines [text]
  obtain ⟨hlaid, hlines, hsections⟩ := laidOut_separated hne (tidy_unitGroups hw hp)
  rw [unitText_eq _ (inline_of_package hp).1]
  refine ⟨hlaid, hlines.trans (congrArg _ hsections.symm), hsections.trans ?_⟩
  rw [unitGroups]
  simp only [List.map_cons, List.map_map, hline, allLines_lines]
  rfl

/-- The unit of an accepted component in a valid package begins with the header, is well laid out
and has thirteen sections with one blank line between them: header, package, imports, the accessor
and the nine declarations in their order. -/
theorem unit_laid_out {schema : Schema} {package : String} (h : Lint.accepts schema = true)
    (hp : packageFault? package = none) :
    let text := (Language.kotlin.unit (assemble schema) package).content
    let names := StyleNames.ofBase schema.name
    (∃ rest, text = generatedHeader ++ "\n" ++ rest) ∧ LaidOut text ∧
      lines text = [""].intercalate (sections text) ∧ (sections text).length = 13 ∧
      ∃ imports accessor declarations,
        sections text =
          [generatedHeader] :: ["package " ++ package] :: imports :: accessor :: declarations ∧
        imports ≠ [] ∧ (∀ line ∈ imports, ∃ name, line = "import " ++ name) ∧
        topLevelNames accessor = [names.accessor] ∧
        declarations.map topLevelNames = names.declarations.map fun name => [name] := by
  intro text names
  have hw := accepts_iff_wellNamed.mp h
  obtain ⟨hlaid, hlines, hsections⟩ := sections_unitText hw hp
  refine ⟨?_, hlaid, hlines, ?_, _, _, _, hsections, imports_ne_nil schema package, ?_, ?_, ?_⟩
  · rw [hsections, List.intercalate_cons_cons] at hlines
    exact hlaid.begins hlines
  · exact (congrArg List.length hsections).trans rfl
  · intro line hl
    obtain ⟨symbol, _, _, rfl⟩ := mem_lines.mp hl
    exact ⟨_, rfl⟩
  · exact topLevelNames_local (isIdentifier_declared hw List.mem_cons_self)
  · rw [List.map_map]
    exact topLevelNames_declarations hw

/-- A component without colors and dimensions: two of its default implementations are objects. -/
def badgeSchema : Schema where
  name := "Badge"
  properties := { shape := ["outline"] }

theorem badge_laid_out :
    Lint.accepts badgeSchema = true ∧ packageFault? "com.example" = none ∧
      LaidOut (Language.kotlin.unit (assemble badgeSchema) "com.example").content ∧
      ∃ imports accessor declarations,
        sections (Language.kotlin.unit (assemble badgeSchema) "com.example").content =
          [generatedHeader] :: ["package " ++ "com.example"] :: imports :: accessor ::
            declarations ∧
        topLevelNames accessor = ["LocalBadgeStyle"] ∧
        declarations.map topLevelNames =
          [["BadgeStyle"], ["BadgeStyleBuilder"], ["DefaultBadgeStyle"], ["BadgeColors"],
            ["BadgeColorsBuilder"], ["DefaultBadgeColors"], ["BadgeDimensions"],
            ["BadgeDimensionsBuilder"], ["DefaultBadgeDimensions"]] := by
  have h : Lint.accepts badgeSchema = true := by decide +kernel
  have hp : packageFault? "com.example" = none := by decide +kernel
  obtain ⟨_, hlaid, _, _, imports, accessor, declarations, hsections, _, _, haccessor, hnames⟩ :=
    unit_laid_out h hp
  exact ⟨h, hp, hlaid, imports, accessor, declarations, hsections,
    haccessor.trans (by decide), hnames.trans (by decide)⟩

end Kotlin
end StyleFamily
