import Mathlib.Data.List.Nodup
import Mathlib.Data.List.Perm.Basic
import StyleFamily.Proofs.Manifest.Acceptance
import StyleFamily.Proofs.Manifest.Classification
import StyleFamily.Proofs.Pipeline.Standard
import StyleFamily.Proofs.Text.Characters

/-!
# Schemas scanned from accepted manifests

The six lists of a scanned schema hold the classified parameters of the holder, each once. The names
that validation let through therefore pass every standard lint but the one for reserved names, and a
unit is emitted exactly when no classified parameter has a reserved name.
-/
namespace StyleFamily

/-- What is left of an identifier before a suffix is an identifier again. -/
theorem isIdentifier_baseName {holder suffix name : String} (hi : isIdentifier holder = true)
    (hb : baseName? holder suffix = some name) : isIdentifier name = true := by
  obtain ⟨rfl, hne⟩ := baseName?_eq_some.mp hb
  cases hn : name.toList with
  | nil => exact absurd (String.toList_eq_nil_iff.mp hn) hne
  | cons c rest =>
    simp only [isIdentifier, String.toList_append, hn, List.cons_append, List.all_append,
      Bool.and_eq_true] at hi ⊢
    exact ⟨hi.1, hi.2.1⟩

/-- The elements with one of some keys, sorted by key, are the elements with any of them. -/
theorem flatMap_filter_perm [DecidableEq κ] (key : α → Option κ) (keys : List κ) (hk : keys.Nodup)
    (xs : List α) :
    (keys.flatMap fun k => xs.filter (key · == some k)).Perm
      (xs.filter fun x => (key x).any keys.contains) := by
  induction keys with
  | nil =>
    have hnone : ∀ x ∈ xs, ¬ (key x).any [].contains = true := fun x _ => by cases key x <;> simp
    rw [List.flatMap_nil, List.filter_eq_nil_iff.mpr hnone]
  | cons k rest ih =>
    obtain ⟨hm, hn⟩ := List.nodup_cons.mp hk
    have hsplit := List.filter_append_perm (key · == some k)
      (xs.filter fun x => (key x).any (k :: rest).contains)
    have hfirst : (xs.filter fun x => (key x).any (k :: rest).contains).filter (key · == some k) =
        xs.filter (key · == some k) := by
      rw [List.filter_filter]
      apply List.filter_congr
      intro x _
      by_cases hx : key x = some k <;> simp [hx]
    have hothers : (xs.filter fun x => (key x).any (k :: rest).contains).filter
        (fun x => !(key x == some k)) = xs.filter fun x => (key x).any rest.contains := by
      rw [List.filter_filter]
      apply List.filter_congr
      intro x _
      cases hx : key x with
      | none => simp
      | some j =>
        by_cases hj : j = k
        · simp [hj, hm]
        · simp [hj]
    rw [hfirst, hothers] at hsplit
    exact ((ih hn).append_left _).trans hsplit

/-- The property that a parameter becomes, if its type has a marker. -/
def SourceParameter.property? (p : SourceParameter) : Option Property :=
  p.category?.map (⟨p.name, ·⟩)

/-- The occurrences of a scanned schema are the classified parameters, each once. -/
theorem occurrences_scanned (name : String) (declaration : SourceDeclaration) :
    (Schema.mk name declaration.properties).occurrences.Perm
      (declaration.parameters.filterMap SourceParameter.property?) := by
  have hlists : (Schema.mk name declaration.properties).occurrences =
      (Category.all.flatMap fun category =>
        declaration.parameters.filter (·.category? == some category)).filterMap
          SourceParameter.property? := by
    simp only [Schema.occurrences, Properties.list, SourceDeclaration.properties,
      Properties.names_ofFunction, List.map_map, List.filterMap_flatMap]
    congr 1
    funext category
    rw [← List.filterMap_eq_map]
    apply List.filterMap_congr
    intro p hp
    have hc : p.category? = some category := by simpa using (List.mem_filter.mp hp).2
    simp [SourceParameter.property?, hc]
  have hall : declaration.parameters.filterMap SourceParameter.property? =
      (declaration.parameters.filter fun p => p.category?.any Category.all.contains).filterMap
        SourceParameter.property? := by
    rw [List.filterMap_filter]
    apply List.filterMap_congr
    intro p _
    cases hc : p.category? <;> simp [SourceParameter.property?, hc, Category.mem_all]
  rw [hlists, hall]
  exact (flatMap_filter_perm _ _ all_nodup _).filterMap _

/-- Whether a parameter has a marker and a name that a generated member has too: `build` in any
category, the members of the style and the fields behind them in the categories of the style. -/
def SourceParameter.collides (p : SourceParameter) : Bool :=
  match Category.classificationOrder.find? fun c => Text.contains p.type c.marker with
  | none => false
  | some category =>
    p.name == "build" ||
      [Category.typography, .shape, .shadow, .floatValue].contains category &&
        ["colors", "dimensions", "colorsBuilder", "dimensionsBuilder"].contains p.name

theorem collides_eq (p : SourceParameter) : p.collides = p.property?.any Property.isReserved := by
  unfold SourceParameter.collides SourceParameter.property? SourceParameter.category?
    SourceParameter.categories Category.ofType
  rw [List.head?_filter]
  cases Category.classificationOrder.find? fun c => Text.contains p.type c.marker <;> rfl

theorem countP_reserved_scanned (name : String) (declaration : SourceDeclaration) :
    (Schema.mk name declaration.properties).occurrences.countP Property.isReserved =
      declaration.parameters.countP SourceParameter.collides := by
  rw [(occurrences_scanned name declaration).countP_eq, List.countP_filterMap]
  apply List.countP_congr
  intro p _
  rw [collides_eq]
  cases p.property? <;> simp

theorem scan_eq_found {manifest : Manifest} {schema : Schema} {notes : List ScanNote}
    (hs : manifest.scan = .found schema notes) :
    ∃ holder name, manifest.holder? = some holder ∧
      baseName? holder.name manifest.scanner.suffix = some name ∧
      schema = ⟨name, holder.properties⟩ := by
  obtain ⟨holder, hh, hb, hp, _⟩ := scan_eq_found_iff.mp hs
  exact ⟨holder, schema.name, hh, hb, hp ▸ rfl⟩

theorem holder_mem {manifest : Manifest} {holder : SourceDeclaration}
    (hh : manifest.holder? = some holder) : holder ∈ manifest.declarations :=
  List.mem_of_find?_eq_some hh

theorem identifiers_scanned (name : String) {declaration : SourceDeclaration}
    (hd : declaration.Acceptable) :
    ∀ p ∈ (Schema.mk name declaration.properties).occurrences, isIdentifier p.name = true := by
  intro p hp
  rw [(occurrences_scanned name declaration).mem_iff, List.mem_filterMap] at hp
  obtain ⟨parameter, hm, hq⟩ := hp
  obtain ⟨category, _, rfl⟩ := Option.map_eq_some_iff.mp hq
  exact hd.parameterNames parameter hm

/-- Every classified parameter keeps its name. -/
theorem nodup_scanned (name : String) {declaration : SourceDeclaration}
    (hd : declaration.Acceptable) :
    ((Schema.mk name declaration.properties).occurrences.map Property.name).Nodup := by
  rw [((occurrences_scanned name declaration).map _).nodup_iff]
  refine List.Nodup.sublist ?_ hd.distinct
  induction declaration.parameters with
  | nil => simp
  | cons p rest ih =>
    cases hc : p.category? with
    | none => simpa [SourceParameter.property?, hc] using ih.trans (List.sublist_cons_self _ _)
    | some category => simpa [SourceParameter.property?, hc] using ih

/-- What an accepted manifest says of the schema scanned from it, of the context it is compiled to
and of the emission of its unit. -/
structure SoundScan (manifest : Manifest) (schema : Schema) (holder : SourceDeclaration)
    (context : Context) : Prop where
  holder_found : manifest.holder? = some holder
  component : schema.name ≠ "" ∧ isIdentifier schema.name = true
  identifiers : ∀ p ∈ schema.occurrences, isIdentifier p.name = true
  unambiguous : ∀ name, (schema.categoriesOf name).length ≤ 1
  distinct : ∀ category, (schema.properties.names category).Nodup
  other_lints : ∀ lint ∈ Lint.standard, lint.name ≠ "reserved-member" →
    ∀ d ∈ lint.check schema, d.isError = false
  compiled : ∀ {m : Type → Type} [Monad m] [LawfulMonad m],
    ({} : Pipeline m).compile manifest.scan = pure (.ok context)
  errors : (Diagnostic.ofSeverity .error context.diagnostics).length =
    holder.parameters.countP SourceParameter.collides
  /-- A sink that takes every unit is handed one exactly when no parameter collides. -/
  emission : ∀ {m : Type → Type} [Monad m] [LawfulMonad m] (language : Language) (target : Target)
    (sink : Sink m) (take : SourceUnit → Target → m Receipt),
    (∀ unit target, sink.accept unit target = .ok <$> take unit target) →
    (({} : Pipeline m).emit language manifest.scan target sink).run =
      if holder.parameters.countP SourceParameter.collides = 0 then
        let unit := language.unit (assemble schema) target.package
        (fun receipt => .ok (.emitted ⟨unit, receipt, assemble schema, context.diagnostics⟩)) <$>
          take unit target
      else pure (.ok (.rejected context.diagnostics))

/-- Validation leaves one lint with anything to object to in a scanned schema: it reports the
classified parameters with reserved names, and only they keep a unit from being emitted. -/
theorem scan_sound {source : List Char} {manifest : Manifest} {schema : Schema}
    {notes : List ScanNote} (ha : manifest.validate source = .ok ())
    (hs : manifest.scan = .found schema notes) :
    ∃ holder context, SoundScan manifest schema holder context := by
  obtain ⟨holder, name, hh, hb, rfl⟩ := scan_eq_found hs
  obtain ⟨_, _, hacc, _⟩ := Manifest.validate_eq_ok.mp ha
  have hd : holder.Acceptable := hacc holder (holder_mem hh)
  have hc : isIdentifier name = true := isIdentifier_baseName hd.name hb
  have hi := identifiers_scanned name hd
  have hn := nodup_scanned name hd
  obtain ⟨hdup, hamb⟩ := occurrences_nodup.mp hn
  have hcompiled : manifest.scan.compiled =
      .ok (Context.ofScan ⟨name, holder.properties⟩ notes).compiled := by
    rw [hs]; rfl
  have hcount := errorCount_standard_of_distinct hc hi hn
  rw [countP_reserved_scanned] at hcount
  refine ⟨holder, (Context.ofScan ⟨name, holder.properties⟩ notes).compiled, hh,
    ⟨ne_empty_of_isIdentifier hc, hc⟩, hi, fun n => Nat.le_of_lt_succ (hamb n), hdup,
    ?_, ?_, ?_, ?_⟩
  · intro lint hl hne d hm
    have h0 := errorCount_check_of_distinct hc hi hn hl hne
    simpa using List.countP_eq_zero.mp h0 d hm
  · intro m _ _
    rw [compile_standard, hcompiled]
  · rw [length_ofSeverity_error, compiled_errorCount, hcount]
  · intro m _ _ language target sink take htake
    rw [emit_standard, hcompiled]
    simp only [compiled_accepted, accepts_iff_errorCount, hcount]
    by_cases hz : holder.parameters.countP SourceParameter.collides = 0
    · simp only [hz, ↓reduceIte, htake, Functor.map_map]
      rfl
    · simp only [hz, ↓reduceIte]

/-- A chip whose holder passes validation although two of its parameters have reserved names. -/
def chipManifest : Manifest where
  declarations :=
    [{ name := "ChipProperties"
       supertypes := [" PropertyOwner "]
       parameters := [⟨"build", "ShadowColorProperty"⟩, ⟨"colors", "ShapeProperty"⟩,
         ⟨"dimensions", "DimensionProperty"⟩, ⟨"icon", "Painter"⟩] }]

def chipSchema : Schema where
  name := "Chip"
  properties := { shape := ["colors"], color := ["build"], dimension := ["dimensions"] }

theorem scan_sound_chip :
    chipManifest.validate [] = .ok () ∧
      ∃ notes holder context, chipManifest.scan = .found chipSchema notes ∧
        SoundScan chipManifest chipSchema holder context ∧
        (Diagnostic.ofSeverity .error context.diagnostics).length = 2 ∧
        ∀ target store, (({} : Pipeline (StateM MemoryStore)).emit .kotlin chipManifest.scan target
          Sink.memory).run.run store = (.ok (.rejected context.diagnostics), store) := by
  have ha : chipManifest.validate [] = .ok () := by decide +kernel
  have hs : chipManifest.scan =
      .found chipSchema (chipManifest.declarations.flatMap SourceDeclaration.notes) := by
    decide +kernel
  obtain ⟨holder, context, hsound⟩ := scan_sound ha hs
  have hholder : chipManifest.holder? = some holder := hsound.holder_found
  obtain rfl : chipManifest.declarations.head (by decide) = holder :=
    Option.some.inj ((show chipManifest.holder? = some _ by decide +kernel).symm.trans hholder)
  refine ⟨ha, _, _, context, hs, hsound, ?_, fun target store => ?_⟩
  · rw [hsound.errors]
    decide +kernel
  · rw [hsound.emission .kotlin target Sink.memory
      (fun unit target => modifyGet fun store => store.accept unit target) (fun _ _ => rfl),
      if_neg (by decide +kernel)]
    rfl

end StyleFamily
