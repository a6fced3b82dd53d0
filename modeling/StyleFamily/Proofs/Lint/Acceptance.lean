import Mathlib.Data.List.Nodup
import StyleFamily.Lint

/-!
# What the standard lints accept

The errors of the standard lints are counted lint by lint. None is left exactly when the component
and its properties have identifiers for names, no property name stands twice over all categories,
and none is taken by a generated member.
-/
namespace StyleFamily

/-- A schema whose names are usable, distinct and free. -/
structure Schema.WellNamed (schema : Schema) : Prop where
  component : isIdentifier schema.name = true
  identifiers : ∀ p ∈ schema.occurrences, isIdentifier p.name = true
  distinct : (schema.occurrences.map Property.name).Nodup
  unreserved : ∀ p ∈ schema.occurrences, p.isReserved = false

/-- How many errors a list of diagnostics holds. -/
def Diagnostic.errorCount (diagnostics : List Diagnostic) : Nat :=
  diagnostics.countP Diagnostic.isError

/-- How many findings are errors. -/
def Finding.errorCount (findings : List Finding) : Nat :=
  findings.countP (·.severity = .error)

theorem length_ofSeverity_error (diagnostics : List Diagnostic) :
    (Diagnostic.ofSeverity .error diagnostics).length = Diagnostic.errorCount diagnostics :=
  List.countP_eq_length_filter.symm

theorem any_isError_eq_false {diagnostics : List Diagnostic} :
    diagnostics.any Diagnostic.isError = false ↔ Diagnostic.errorCount diagnostics = 0 := by
  simp [Diagnostic.errorCount, List.any_eq_false]

theorem errorCount_check (name description : String) (findings : Schema → List Finding)
    (schema : Schema) :
    Diagnostic.errorCount ((Lint.ofFindings name description findings).check schema) =
      Finding.errorCount (findings schema) := by
  simp only [Lint.ofFindings, Diagnostic.errorCount, Finding.errorCount, List.countP_map]
  apply List.countP_congr
  intro finding _
  simp [Diagnostic.isError, Finding.diagnostic]

theorem occurrences_names (schema : Schema) :
    schema.occurrences.map Property.name = Category.all.flatMap schema.properties.names := by
  simp [Schema.occurrences, Properties.list, List.map_flatMap, Function.comp_def]

theorem mem_occurrences {schema : Schema} {p : Property} :
    p ∈ schema.occurrences ↔ p.name ∈ schema.properties.names p.category := by
  simp only [Schema.occurrences, Properties.list, List.mem_flatMap, List.mem_map]
  constructor
  · rintro ⟨category, _, name, hn, rfl⟩
    exact hn
  · intro h
    exact ⟨p.category, Category.mem_all _, p.name, h, rfl⟩

theorem mem_occurrences_of_mem_list {schema : Schema} {categories : List Category} {p : Property}
    (h : p ∈ schema.properties.list categories) : p ∈ schema.occurrences := by
  simp only [Properties.list, List.mem_flatMap, List.mem_map] at h
  obtain ⟨category, _, name, hn, rfl⟩ := h
  exact mem_occurrences.mpr hn

theorem mem_categoriesOf {schema : Schema} {name : String} {category : Category} :
    category ∈ schema.categoriesOf name ↔ name ∈ schema.properties.names category := by
  simp [Schema.categoriesOf, Category.mem_all]

theorem all_nodup : Category.all.Nodup := by decide

theorem categoriesOf_nodup (schema : Schema) (name : String) :
    (schema.categoriesOf name).Nodup :=
  all_nodup.filter _

/-- A name stands under one category at most, exactly when no two categories share it. -/
theorem length_categoriesOf_lt_two {schema : Schema} {name : String} :
    (schema.categoriesOf name).length < 2 ↔
      ∀ a b, name ∈ schema.properties.names a → name ∈ schema.properties.names b → a = b := by
  have hn := categoriesOf_nodup schema name
  simp only [← mem_categoriesOf]
  rcases hc : schema.categoriesOf name with _ | ⟨c, _ | ⟨d, rest⟩⟩
  · simp
  · simp +contextual
  · rw [hc] at hn
    refine ⟨fun h => absurd h (by simp), fun h => ?_⟩
    have he : c = d := h c d (by simp) (by simp)
    simp [he] at hn

/-- All names are distinct exactly when they are so within each category and no two categories
share a name. -/
theorem occurrences_nodup {schema : Schema} :
    (schema.occurrences.map Property.name).Nodup ↔
      (∀ category, (schema.properties.names category).Nodup) ∧
        ∀ name, (schema.categoriesOf name).length < 2 := by
  simp only [length_categoriesOf_lt_two]
  constructor
  · intro h
    refine ⟨fun category => ?_, fun name a b ha hb => ?_⟩
    · rw [occurrences_names] at h
      exact (List.nodup_flatMap.mp h).1 category (Category.mem_all category)
    · have hp : (⟨name, a⟩ : Property) ∈ schema.occurrences := mem_occurrences.mpr ha
      have hq : (⟨name, b⟩ : Property) ∈ schema.occurrences := mem_occurrences.mpr hb
      exact congrArg Property.category (List.inj_on_of_nodup_map h hp hq rfl)
  · rintro ⟨hw, ha⟩
    rw [occurrences_names, List.nodup_flatMap]
    refine ⟨fun category _ => hw category, all_nodup.imp ?_⟩
    intro a b hne name hna hnb
    exact hne (ha name a b hna hnb)

theorem errorCount_componentName (schema : Schema) :
    Finding.errorCount (Finding.ofComponentName schema) =
      if isIdentifier schema.name then 0 else 1 := by
  by_cases he : schema.name = ""
  · have hi : isIdentifier "" = false := rfl
    simp [Finding.ofComponentName, Finding.errorCount, Finding.severity, he, hi]
  · by_cases hi : isIdentifier schema.name = true
    · simp only [Finding.ofComponentName, he, hi, ↓reduceIte, Bool.not_true, Bool.false_eq_true]
      split <;> rfl
    · simp [Finding.ofComponentName, Finding.errorCount, Finding.severity, he, hi]

theorem errorCount_propertyNames (schema : Schema) :
    Finding.errorCount (Finding.ofPropertyNames schema) =
      schema.occurrences.countP (!isIdentifier ·.name) := by
  have hp : ∀ p, Finding.errorCount (Finding.ofPropertyName p) =
      if !isIdentifier p.name then 1 else 0 := by
    intro p
    by_cases hi : isIdentifier p.name = true
    · simp only [Finding.ofPropertyName, hi, Bool.not_true, Bool.false_eq_true, ↓reduceIte]
      split <;> rfl
    · simp [Finding.ofPropertyName, Finding.errorCount, Finding.severity, hi]
  simp only [Finding.ofPropertyNames, Finding.errorCount, List.countP_flatMap] at hp ⊢
  induction schema.occurrences with
  | nil => rfl
  | cons p rest ih => simp [List.countP_cons, hp, ih, Nat.add_comm]

theorem errorCount_ambiguity (schema : Schema) :
    Finding.errorCount (Finding.ofAmbiguity schema) =
      (firstByName [] schema.occurrences).countP fun p =>
        2 ≤ (schema.categoriesOf p.name).length := by
  simp only [Finding.ofAmbiguity, Finding.errorCount, List.countP_filterMap]
  apply List.countP_congr
  intro p _
  by_cases h : 2 ≤ (schema.categoriesOf p.name).length <;> simp [h, Finding.severity]

theorem errorCount_reservedNames (schema : Schema) :
    Finding.errorCount (Finding.ofReservedNames schema) =
      schema.occurrences.countP Property.isReserved := by
  simp only [Finding.ofReservedNames, Finding.errorCount, List.countP_map]
  rw [List.countP_eq_length_filter (p := Property.isReserved)]
  simp [Function.comp_def, Finding.severity]

theorem errorCount_emptyGroups (schema : Schema) :
    Finding.errorCount (Finding.ofEmptyGroups schema) = 0 := by
  simp [Finding.ofEmptyGroups, Finding.errorCount, Finding.severity]

/-- The errors of all standard lints together. -/
theorem errorCount_standard (schema : Schema) :
    Diagnostic.errorCount (Lint.checkAll Lint.standard schema) =
      Finding.errorCount (Finding.ofComponentName schema) +
      Finding.errorCount (Finding.ofPropertyNames schema) +
      Finding.errorCount (Finding.ofAmbiguity schema) +
      Finding.errorCount (Finding.ofDuplicates schema) +
      Finding.errorCount (Finding.ofReservedNames schema) := by
  have happ : ∀ a b, Diagnostic.errorCount (a ++ b) =
      Diagnostic.errorCount a + Diagnostic.errorCount b := fun a b => List.countP_append
  have hempty := errorCount_emptyGroups schema
  simp only [Lint.checkAll, Lint.standard, List.flatMap_cons, List.flatMap_nil, happ,
    Lint.componentName, Lint.propertyNaming, Lint.ambiguousCategory, Lint.duplicateProperty,
    Lint.reservedMember, Lint.emptyGroup, errorCount_check, hempty]
  rw [show Diagnostic.errorCount [] = 0 from rfl]
  omega

/-- Every name that is not among `seen` comes first somewhere. -/
theorem exists_firstByName {seen : List String} {ps : List Property} {p : Property}
    (h : p ∈ ps) (hs : p.name ∉ seen) : ∃ q ∈ firstByName seen ps, q.name = p.name := by
  induction ps generalizing seen with
  | nil => simp at h
  | cons q rest ih =>
    rw [firstByName]
    by_cases hq : q.name = p.name
    · rw [if_neg (by simpa [hq] using hs)]
      exact ⟨q, List.mem_cons_self, hq⟩
    · have hr : p ∈ rest := by
        rcases List.mem_cons.mp h with rfl | h
        · exact absurd rfl hq
        · exact h
      split
      · exact ih hr hs
      · have hqs : p.name ∉ q.name :: seen := by simp [hs, Ne.symm hq]
        obtain ⟨r, hr, he⟩ := ih hr hqs
        exact ⟨r, List.mem_cons_of_mem _ hr, he⟩

/-- A name that stands somewhere also comes first somewhere, where it is counted. -/
theorem errorCount_ambiguity_eq_zero {schema : Schema} :
    Finding.errorCount (Finding.ofAmbiguity schema) = 0 ↔
      ∀ name, (schema.categoriesOf name).length < 2 := by
  rw [errorCount_ambiguity, List.countP_eq_zero]
  constructor
  · intro h name
    by_contra hn
    obtain ⟨category, hc⟩ := List.exists_mem_of_length_pos
      (show 0 < (schema.categoriesOf name).length by omega)
    have hp : (⟨name, category⟩ : Property) ∈ schema.occurrences :=
      mem_occurrences.mpr (mem_categoriesOf.mp hc)
    have hs : name ∉ ([] : List String) := List.not_mem_nil
    obtain ⟨q, hq, he⟩ := exists_firstByName hp hs
    have hl := h q hq
    rw [he] at hl
    simp only [decide_eq_true_eq] at hl
    omega
  · intro h p _
    have hl := h p.name
    simp only [decide_eq_true_eq]
    omega

theorem repeated_eq_nil {seen names : List String} :
    repeated seen names = [] ↔ names.Nodup ∧ ∀ name ∈ names, name ∉ seen := by
  induction names generalizing seen with
  | nil => simp [repeated]
  | cons name rest ih =>
    rw [repeated]
    by_cases hs : name ∈ seen
    · simp [hs]
    · rw [if_neg (by simpa using hs), ih]
      simp only [List.nodup_cons, List.mem_cons, not_or, forall_eq_or_imp]
      constructor
      · rintro ⟨hn, hr⟩
        exact ⟨⟨fun hm => (hr name hm).1 rfl, hn⟩, hs, fun x hx => (hr x hx).2⟩
      · rintro ⟨⟨hm, hn⟩, _, hr⟩
        exact ⟨hn, fun x hx => ⟨fun he => hm (he ▸ hx), hr x hx⟩⟩

theorem errorCount_duplicates_eq_zero {schema : Schema} :
    Finding.errorCount (Finding.ofDuplicates schema) = 0 ↔
      ∀ category, (schema.properties.names category).Nodup := by
  have hrep : ∀ category, (schema.properties.names category).Nodup ↔
      repeated [] (schema.properties.names category) = [] := by
    simp [repeated_eq_nil]
  simp only [hrep, List.eq_nil_iff_forall_not_mem]
  rw [Finding.errorCount, List.countP_eq_zero]
  constructor
  · intro h category name hn
    refine h (.duplicateProperty ⟨name, category⟩) ?_ rfl
    exact List.mem_flatMap.mpr ⟨category, Category.mem_all category, List.mem_map_of_mem hn⟩
  · intro h finding hf
    obtain ⟨category, _, hm⟩ := List.mem_flatMap.mp hf
    obtain ⟨name, hn, rfl⟩ := List.mem_map.mp hm
    exact absurd hn (h category name)

section
variable {schema : Schema} (hc : isIdentifier schema.name = true)
  (hi : ∀ p ∈ schema.occurrences, isIdentifier p.name = true)
  (hd : (schema.occurrences.map Property.name).Nodup)
include hc hi hd

/-- Usable, distinct names leave errors for reserved names alone. -/
theorem errorCount_of_distinct :
    Finding.errorCount (Finding.ofComponentName schema) = 0 ∧
      Finding.errorCount (Finding.ofPropertyNames schema) = 0 ∧
      Finding.errorCount (Finding.ofAmbiguity schema) = 0 ∧
      Finding.errorCount (Finding.ofDuplicates schema) = 0 := by
  obtain ⟨hdup, hamb⟩ := occurrences_nodup.mp hd
  refine ⟨?_, ?_, errorCount_ambiguity_eq_zero.mpr hamb, errorCount_duplicates_eq_zero.mpr hdup⟩
  · rw [errorCount_componentName, hc, if_pos rfl]
  · rw [errorCount_propertyNames, List.countP_eq_zero]
    intro p hp
    simp [hi p hp]

theorem errorCount_standard_of_distinct :
    Diagnostic.errorCount (Lint.checkAll Lint.standard schema) =
      schema.occurrences.countP Property.isReserved := by
  obtain ⟨h1, h2, h3, h4⟩ := errorCount_of_distinct hc hi hd
  rw [errorCount_standard, h1, h2, h3, h4, errorCount_reservedNames]
  omega

theorem errorCount_check_of_distinct {lint : Lint} (hl : lint ∈ Lint.standard)
    (hn : lint.name ≠ "reserved-member") : Diagnostic.errorCount (lint.check schema) = 0 := by
  obtain ⟨h1, h2, h3, h4⟩ := errorCount_of_distinct hc hi hd
  simp only [Lint.standard, List.mem_cons, List.not_mem_nil, or_false] at hl
  rcases hl with rfl | rfl | rfl | rfl | rfl | rfl
  · exact (errorCount_check _ _ _ schema).trans h1
  · exact (errorCount_check _ _ _ schema).trans h2
  · exact (errorCount_check _ _ _ schema).trans h3
  · exact (errorCount_check _ _ _ schema).trans h4
  · exact absurd rfl hn
  · exact (errorCount_check _ _ _ schema).trans (errorCount_emptyGroups schema)

end

theorem accepts_iff_errorCount {schema : Schema} :
    Lint.accepts schema = true ↔
      Diagnostic.errorCount (Lint.checkAll Lint.standard schema) = 0 := by
  rw [Lint.accepts, Bool.not_eq_true', any_isError_eq_false]

/-- The standard lints accept exactly the well-named schemas. -/
theorem accepts_iff_wellNamed {schema : Schema} :
    Lint.accepts schema = true ↔ schema.WellNamed := by
  rw [accepts_iff_errorCount]
  constructor
  · intro h
    rw [errorCount_standard] at h
    have hc : Finding.errorCount (Finding.ofComponentName schema) = 0 := by omega
    have hi : Finding.errorCount (Finding.ofPropertyNames schema) = 0 := by omega
    have ha : Finding.errorCount (Finding.ofAmbiguity schema) = 0 := by omega
    have hd : Finding.errorCount (Finding.ofDuplicates schema) = 0 := by omega
    have hr : Finding.errorCount (Finding.ofReservedNames schema) = 0 := by omega
    rw [errorCount_componentName] at hc
    rw [errorCount_propertyNames, List.countP_eq_zero] at hi
    rw [errorCount_reservedNames, List.countP_eq_zero] at hr
    refine ⟨?_, ?_, ?_, ?_⟩
    · by_contra hn
      simp [hn] at hc
    · intro p hp
      simpa using hi p hp
    · exact occurrences_nodup.mpr
        ⟨errorCount_duplicates_eq_zero.mp hd, errorCount_ambiguity_eq_zero.mp ha⟩
    · intro p hp
      simpa using hr p hp
  · intro h
    rw [errorCount_standard_of_distinct h.component h.identifiers h.distinct, List.countP_eq_zero]
    intro p hp
    simp [h.unreserved p hp]

end StyleFamily
