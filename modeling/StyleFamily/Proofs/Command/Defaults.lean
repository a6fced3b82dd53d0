import StyleFamily.Proofs.Command.Agreement
import StyleFamily.Proofs.Kotlin.Fallbacks
import StyleFamily.Proofs.Kotlin.SharedNames
import StyleFamily.Proofs.Layout.Lines
import StyleFamily.Proofs.Model.Refinement

/-!
# Reported defaults and rendered defaults

An explanation reports what the interpreter's unconfigured builder resolves to. The emitted source
says the same in the text of its builders: each argument of `build` that is a field or else an
expression. For an accepted component both lists are one, in the order of the properties.
-/
namespace StyleFamily
namespace Kotlin

/-- A name without the quotes around it. -/
def unquoted (name : String) : String := String.ofList (name.toList.filter (· ∉ quotes))

/-- What an argument line `name = field ?: expression,` says; other lines say nothing. -/
def readFallback? (line : String) : Option (String × String) :=
  (Text.cut? " = " (Text.withoutMargin line)).bind fun (name, value) =>
    ((fallback? value).bind (Text.withoutSuffix? · ",")).map fun expression =>
      (unquoted name, expression)

/-- The fallbacks in the text of a function, each under the type that the function returns. -/
def FunctionNode.fallbacks (f : FunctionNode) : List (String × String) :=
  ((Text.lines (Fragment.textOf f.fragments)).filterMap readFallback?).map
    fun (name, expression) => (f.returns ++ "." ++ name, expression)

/-- The fallbacks in the text of a triad's builder. -/
def renderedFallbacks (triad : Triad) : List (String × String) :=
  (nestedBuilders triad).flatMap fun node => node.buildFunctions.flatMap FunctionNode.fallbacks

/-- The fallbacks in the texts of a family's three builders. -/
def renderedDefaults (artifacts : Artifacts) : List (String × String) :=
  renderedFallbacks artifacts.style ++ renderedFallbacks artifacts.colors ++
    renderedFallbacks artifacts.dimensions

theorem unquoted_safe {name : String} (h : isIdentifier name = true) :
    unquoted (safe name) = name := by
  have hquotes : ∀ c ∈ quotes, isNamePart c = false := by
    have hall : quotes.all (!isNamePart ·) = true := by decide
    simpa using hall
  have hname : name.toList.filter (· ∉ quotes) = name.toList := by
    rw [List.filter_eq_self]
    intro c hc
    rw [decide_eq_true_eq]
    exact fun hq => notMem_of_isIdentifier h (hquotes c hq) hc
  rw [unquoted, safe, NamingConvention.safe]
  split
  · have hopening : naming.opening.toList.filter (· ∉ quotes) = [] := by decide
    have hclosing : naming.closing.toList.filter (· ∉ quotes) = [] := by decide
    rw [String.toList_append, String.toList_append, List.filter_append, List.filter_append, hname,
      hopening, hclosing, List.nil_append, List.append_nil, String.ofList_toList]
  · rw [hname, String.ofList_toList]

/-- The line that hands a member over. -/
def argumentLine (member : Member) : String :=
  safe member.name ++ " = " ++ argumentValue member ++ ","

theorem readFallback?_eq_none {depth : Nat} {text : String} (h : '?' ∉ text.toList) :
    readFallback? (Fragment.lineAt depth text) = none := by
  rw [readFallback?, Option.bind_eq_none_iff]
  rintro ⟨name, value⟩ hcut
  have hvalue : '?' ∉ value.toList := by
    intro hm
    have hline := Text.mem_of_cut? hcut hm
    rw [Text.withoutMargin, String.toList_ofList] at hline
    exact (Fragment.mem_lineAt ((List.dropWhile_suffix _).subset hline)).elim (by decide) h
  simp only [fallback?_eq_none hvalue, Option.bind_none, Option.map_none]

/-- The line of a flat member says its name and its default; that of a delegate says nothing. -/
theorem readFallback?_argumentLine {member : Member} (hm : isIdentifier member.name = true)
    (depth : Nat) :
    readFallback? (Fragment.lineAt depth (argumentLine member)) =
      (memberFallback? member).map fun expression => (member.name, expression) := by
  cases member with
  | delegate d =>
    have hrest : '?' ∉ " = ".toList ∧ '?' ∉ ",".toList := by decide
    have hname : '?' ∉ (safe d.member).toList := notMem_safe hm (by decide) (by decide)
    refine readFallback?_eq_none ?_
    simp only [argumentLine, String.toList_append, List.mem_append, not_or]
    exact ⟨⟨⟨hname, hrest.1⟩, notMem_buildDelegate hm⟩, hrest.2⟩
  | flat p =>
    have hname : isIdentifier p.name = true := hm
    have hblank : ' ' ∉ (safe p.name).toList := notMem_safe hname (by decide) (by decide)
    have hseparator : " = ".toList = ' ' :: ['=', ' '] := by decide
    have hline : argumentLine (.flat p) = safe p.name ++ " = " ++
        (safe p.name ++ " ?: " ++ (spellValue p.category.defaultValue ++ ",")) := by
      simp only [argumentLine, argumentValue, Member.name, String.append_assoc]
    obtain ⟨c, more, hc⟩ := exists_cons_safe hname
    have hmargin : Text.withoutMargin (Fragment.lineAt depth (argumentLine (.flat p))) =
        argumentLine (.flat p) := by
      rw [hline, String.append_assoc]
      exact withoutMargin_lineAt hc (fun he => hblank (by simp [hc, he])) _ _
    rw [readFallback?, hmargin, hline, Text.cut?_append hseparator hblank]
    simp only [Option.bind_some, fallback?_append hname, Text.withoutSuffix?_append,
      Option.map_some, unquoted_safe hname, memberFallback?, Member.name]

/-- What a rendered `build` opens with. -/
def buildOpening (group : PropertyGroup) : String :=
  "override fun build(): " ++ group.result ++ " = " ++ group.defaultImpl

/-- A rendered `build` makes its result in one line, or from one line an argument. -/
theorem build_fragments (group : PropertyGroup) :
    (functionNode (group.buildFunction.implementation group.buildBody)).fragments =
      if group.members = [] then [.line (buildOpening group)]
      else [.block (buildOpening group ++ "(")
        (group.members.map fun member => .line (argumentLine member)) ")"] := by
  have hsignature : (functionNode (group.buildFunction.implementation group.buildBody)).signature =
      "override fun build(): " ++ group.result := rfl
  have hbody : (functionNode (group.buildFunction.implementation group.buildBody)).body =
      bodyNode group.buildBody := rfl
  have hdoc : (functionNode (group.buildFunction.implementation group.buildBody)).doc = none := rfl
  rw [FunctionNode.fragments, hsignature, hbody, hdoc, bodyNode_buildBody]
  split_ifs
  · rfl
  · simp only [Fragment.docs, Option.map_none, Option.toList_none, List.nil_append, List.map_map]
    rfl

/-- A group that is spelled with identifiers only. -/
structure Identified (group : PropertyGroup) : Prop extends Spellable group where
  result : isIdentifier group.result = true
  defaultImpl : isIdentifier group.defaultImpl = true

theorem identified_of_mem {schema : Schema} (hw : schema.WellNamed) {group : PropertyGroup}
    (hg : group ∈ [styleGroup schema, colorsGroup schema, dimensionsGroup schema]) :
    Identified group := by
  have hrelated := related_of_mem hg
  exact ⟨spellable_of_mem hw hg, isIdentifier_declared hw hrelated.result,
    isIdentifier_declared hw hrelated.defaultImpl⟩

section
variable {group : PropertyGroup} (h : Identified group)
include h

theorem unbroken_argumentLine {member : Member} (hm : member ∈ group.members) :
    Text.Unbroken (argumentLine member) := by
  have hname := h.names member hm
  have hvalue : Text.Unbroken (argumentValue member) := by
    cases member with
    | flat p =>
      have hdefault : ∀ category : Category, Text.Unbroken (spellValue category.defaultValue) := by
        intro category
        cases category <;> decide +kernel
      simp only [argumentValue, unbroken_append]
      exact ⟨⟨unbroken_safe hname, by decide⟩, hdefault _⟩
    | delegate d =>
      simp only [argumentValue, unbroken_append]
      exact ⟨⟨⟨unbroken_safe (isIdentifier_append hname (by decide)), by decide⟩, by decide⟩,
        by decide⟩
  simp only [argumentLine, unbroken_append]
  exact ⟨⟨⟨unbroken_safe hname, by decide⟩, hvalue⟩, by decide⟩

theorem unbroken_buildOpening : Text.Unbroken (buildOpening group) := by
  unfold buildOpening
  simp only [unbroken_append]
  exact ⟨⟨⟨by decide, unbroken_of_isIdentifier h.result⟩, by decide⟩,
    unbroken_of_isIdentifier h.defaultImpl⟩

theorem notMem_buildOpening : '?' ∉ (buildOpening group).toList := by
  have hrest : '?' ∉ "override fun build(): ".toList ∧ '?' ∉ " = ".toList := by decide
  unfold buildOpening
  simp only [String.toList_append, List.mem_append, not_or]
  exact ⟨⟨⟨hrest.1, notMem_of_isIdentifier h.result (by decide)⟩, hrest.2⟩,
    notMem_of_isIdentifier h.defaultImpl (by decide)⟩

/-- Between lines without an elvis operator, the arguments tell the default of each flat member. -/
theorem readFallback?_block {opening closing : String} (ho : '?' ∉ opening.toList)
    (hc : '?' ∉ closing.toList) :
    (Fragment.allLines 0 [.block opening
        (group.members.map fun member => .line (argumentLine member)) closing]).filterMap
          readFallback? =
      group.members.filterMap fun member =>
        (memberFallback? member).map fun expression => (member.name, expression) := by
  have hopening : readFallback? (Fragment.lineAt 0 opening) = none := readFallback?_eq_none ho
  have hclosing : readFallback? (Fragment.lineAt 0 closing) = none := readFallback?_eq_none hc
  rw [Fragment.allLines_block, List.cons_append, List.filterMap_cons_none hopening,
    List.filterMap_append, List.filterMap_cons_none hclosing, List.filterMap_nil, List.append_nil,
    List.filterMap_map]
  refine List.filterMap_congr fun member hm => ?_
  rw [Function.comp_apply]
  exact readFallback?_argumentLine (h.names member hm) 1

theorem unbroken_block {opening closing : String} (ho : Text.Unbroken opening)
    (hc : Text.Unbroken closing) :
    ∀ line ∈ Fragment.allLines 0 [.block opening
      (group.members.map fun member => .line (argumentLine member)) closing],
        Text.Unbroken line := by
  rw [Fragment.allLines_block, List.cons_append, List.forall_mem_cons, List.forall_mem_append,
    List.forall_mem_map, List.forall_mem_singleton]
  exact ⟨Fragment.unbroken_lineAt ho,
    fun member hm => Fragment.unbroken_lineAt (unbroken_argumentLine h hm),
    Fragment.unbroken_lineAt hc⟩

/-- The text of a `build` tells the default of each flat member. -/
theorem readFallback?_build :
    (Text.lines (Fragment.textOf
        (functionNode (group.buildFunction.implementation group.buildBody)).fragments)).filterMap
          readFallback? =
      group.members.filterMap fun member =>
        (memberFallback? member).map fun expression => (member.name, expression) := by
  have hunbroken := unbroken_buildOpening h
  have hsilent := notMem_buildOpening h
  rw [build_fragments]
  generalize buildOpening group = opening at hunbroken hsilent ⊢
  split
  · next hm =>
    have hread : readFallback? (Fragment.lineAt 0 opening) = none := readFallback?_eq_none hsilent
    rw [lines_textOf, hm]
    · simp [Fragment.allLines, Fragment.linesOf, hread]
    · simpa [Fragment.allLines, Fragment.linesOf] using Fragment.unbroken_lineAt hunbroken
  · have hparenthesis : '?' ∉ (opening ++ "(").toList := by simpa using hsilent
    rw [lines_textOf (unbroken_block h (unbroken_append.mpr ⟨hunbroken, by decide⟩) (by decide)),
      readFallback?_block h hparenthesis (by decide)]

/-- The rendered builder of a group says what the store of the group builds from nothing. -/
theorem renderedFallbacks_ofGroup (kind : TriadKind) (doc : String) :
    renderedFallbacks (Triad.ofGroup kind group doc) = (group.store.build []).defaults := by
  have hreturns : (functionNode (group.buildFunction.implementation group.buildBody)).returns =
      group.result := rfl
  rw [renderedFallbacks, nestedBuilders_ofGroup, List.flatMap_singleton,
    buildFunctions_nestedBuilder h.toSpellable, List.flatMap_singleton, FunctionNode.fallbacks,
    readFallback?_build h, hreturns, Record.defaults, Store.build, PropertyGroup.store,
    List.map_map, List.map_filterMap, List.map_filterMap]
  refine List.filterMap_congr fun member _ => ?_
  cases member <;> rfl

end

/-- What the three rendered builders of an accepted component fall back to is what its store builds
from nothing. -/
theorem renderedDefaults_assemble {schema : Schema} (hw : schema.WellNamed) :
    renderedDefaults (assemble schema) = ((FamilyStore.ofSchema schema).build {}).defaults := by
  have hs : Identified (styleGroup schema) := identified_of_mem hw (by simp)
  have hc : Identified (colorsGroup schema) := identified_of_mem hw (by simp)
  have hd : Identified (dimensionsGroup schema) := identified_of_mem hw (by simp)
  obtain ⟨hstyle, hcolors, hdimensions⟩ := group_stores schema
  rw [Style.defaults, FamilyStore.build, ← hstyle, ← hcolors, ← hdimensions,
    ← renderedFallbacks_ofGroup hs .style styleDoc,
    ← renderedFallbacks_ofGroup hc .colors colorsDoc,
    ← renderedFallbacks_ofGroup hd .dimensions dimensionsDoc]
  rfl

end Kotlin

/-- A property of a record with the expression of its default. -/
def defaultEntry (record : String) (p : Property) : String × String :=
  (record ++ "." ++ p.name, Kotlin.spellValue p.category.defaultValue)

/-- From nothing, a store builds the default of each property in its place. -/
theorem defaults_ofSchema (schema : Schema) :
    ((FamilyStore.ofSchema schema).build {}).defaults =
      schema.styleProperties.map (defaultEntry (StyleNames.ofBase schema.name).style) ++
        schema.colorProperties.map (defaultEntry (StyleNames.ofBase schema.name).colors) ++
        schema.dimensionProperties.map
          (defaultEntry (StyleNames.ofBase schema.name).dimensions) := by
  have hstore : ∀ store : Store,
      (store.build []).defaults = store.properties.map (defaultEntry store.typeName) := by
    intro store
    rw [Record.defaults, Store.build, List.map_map]
    rfl
  have hstyle : (FamilyStore.ofSchema schema).style.properties = schema.styleProperties := by
    simp [FamilyStore.ofSchema, Schema.styleProperties, Properties.list, Category.styleOrder,
      Properties.names]
  have hcolors : (FamilyStore.ofSchema schema).colors.properties = schema.colorProperties := by
    simp [FamilyStore.ofSchema, Schema.colorProperties, Properties.list, Properties.names]
  have hdimensions :
      (FamilyStore.ofSchema schema).dimensions.properties = schema.dimensionProperties := by
    simp [FamilyStore.ofSchema, Schema.dimensionProperties, Properties.list, Properties.names]
  rw [Style.defaults, FamilyStore.build, hstore, hstore, hstore, hstyle, hcolors, hdimensions]
  rfl

theorem analyze_defaults (file : ManifestFile) {schema : Schema} {context : Context}
    (hw : schema.WellNamed) (hc : context.accepted? = some (assemble schema)) :
    ∃ analysis, file.analyze context = .ok (.ok analysis) ∧
      analysis.defaults = ((FamilyStore.ofSchema schema).build {}).defaults := by
  have hbuild : ((FamilyStore.ofSchema schema).builder (styleDelegates schema) {}).build =
      (FamilyStore.ofSchema schema).build {} := FamilyStore.builder_build _ _
  rw [ManifestFile.analyze, hc]
  simp only [ofArtifacts_assemble hw]
  exact ⟨_, rfl, congrArg Style.defaults hbuild⟩

/-- For an accepted component, what the interpreter's unconfigured builder resolves to, what an
explanation reports as defaults, and what the rendered builders fall back to are one list: an entry
for each property, in order, with the expression of its category's default. -/
theorem defaults_agree {schema : Schema} (h : Lint.accepts schema = true) :
    (∃ builder, StyleBuilder.ofArtifacts (assemble schema) = .ok builder ∧
      builder.build.defaults = Kotlin.renderedDefaults (assemble schema)) ∧
    (∀ (file : ManifestFile) (notes : List ScanNote), file.manifest.scan = .found schema notes →
      ∃ report analysis, file.explain = .ok report ∧ report.analysis = .ok analysis ∧
        analysis.defaults = Kotlin.renderedDefaults (assemble schema)) ∧
    Kotlin.renderedDefaults (assemble schema) =
      schema.styleProperties.map (defaultEntry (StyleNames.ofBase schema.name).style) ++
        schema.colorProperties.map (defaultEntry (StyleNames.ofBase schema.name).colors) ++
        schema.dimensionProperties.map
          (defaultEntry (StyleNames.ofBase schema.name).dimensions) ∧
    (Kotlin.renderedDefaults (assemble schema)).length = schema.properties.size := by
  have hw := accepts_iff_wellNamed.mp h
  rw [Kotlin.renderedDefaults_assemble hw]
  refine ⟨⟨_, ofArtifacts_assemble hw, ?_⟩, ?_, defaults_ofSchema schema, ?_⟩
  · rw [FamilyStore.builder_build]
  · intro file notes hscan
    have hcompiled : file.manifest.scan.compiled = .ok (Context.ofScan schema notes).compiled := by
      rw [hscan]
      rfl
    have haccepted : (Context.ofScan schema notes).compiled.accepted? = some (assemble schema) := by
      rw [compiled_accepted, if_pos h]
    obtain ⟨analysis, hanalyze, hdefaults⟩ := analyze_defaults file hw haccepted
    refine ⟨file.explained (.ok analysis), analysis, ?_, rfl, hdefaults⟩
    rw [ManifestFile.explain_eq, hcompiled]
    simp only [hanalyze]
    rfl
  · rw [defaults_ofSchema]
    simp [Schema.styleProperties, Schema.colorProperties, Schema.dimensionProperties,
      Properties.list, Properties.size, Category.styleOrder, Category.all]
    omega

/-- A switch with keywords for properties and an empty group of dimensions. -/
def switchSchema : Schema where
  name := "Switch"
  properties := { typography := ["label", "in"], shape := ["object"], color := ["class"] }

def switchFile : ManifestFile where
  path := ⟨"switch.toml"⟩
  content := ""
  manifest :=
    { output := { package := "ui.switch", directory := ⟨"out"⟩ }
      declarations :=
        [{ name := "SwitchProperties"
           supertypes := ["PropertyOwner"]
           parameters := [⟨"class", "ColorProperty"⟩, ⟨"label", "TypographyProperty"⟩,
             ⟨"object", "ShapeProperty"⟩, ⟨"in", "TypographyProperty"⟩] }] }

theorem switch_defaults_agree :
    Lint.accepts switchSchema = true ∧ switchFile.manifest.scan = .found switchSchema [] ∧
      ∃ report analysis, switchFile.explain = .ok report ∧ report.analysis = .ok analysis ∧
        analysis.defaults =
          [("SwitchStyle.label", "TextStyle.Default"), ("SwitchStyle.in", "TextStyle.Default"),
            ("SwitchStyle.object", "RectangleShape"),
            ("SwitchColors.class", "Color.Black.asInteractive()")] := by
  have h : Lint.accepts switchSchema = true := by decide +kernel
  have hscan : switchFile.manifest.scan = .found switchSchema [] := by decide +kernel
  obtain ⟨_, hexplained, hlist, _⟩ := defaults_agree h
  obtain ⟨report, analysis, hreport, hanalysis, hdefaults⟩ := hexplained switchFile [] hscan
  refine ⟨h, hscan, report, analysis, hreport, hanalysis, ?_⟩
  rw [hdefaults, hlist]
  decide +kernel

end StyleFamily
