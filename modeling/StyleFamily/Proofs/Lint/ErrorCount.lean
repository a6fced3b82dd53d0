import Mathlib.Algebra.GroupWithZero.Nat
import Mathlib.Data.Finset.Card
import Mathlib.Data.List.Dedup
import StyleFamily.Pipeline
import StyleFamily.Proofs.Lint.Acceptance

/-!
# How many errors the standard lints find

The lints count in different ways: an unusable or reserved name at each of its occurrences, a name
under several categories once, and a name repeated within a category at every repetition. The sum
of these counts is what the validation of any schema adds to the errors that were there before.
-/
namespace StyleFamily

theorem length_repeated_add (seen names : List String) :
    (repeated seen names).length + (names.toFinset \ seen.toFinset).card = names.length := by
  induction names generalizing seen with
  | nil => simp [repeated]
  | cons name rest ih =>
    rw [repeated]
    by_cases hs : name ∈ seen
    · have hseen : name ∈ seen.toFinset := List.mem_toFinset.mpr hs
      rw [if_pos (by simpa using hs), List.toFinset_cons, Finset.insert_sdiff_of_mem _ hseen,
        List.length_cons, List.length_cons, ← ih seen]
      omega
    · have hfresh : name ∉ rest.toFinset \ (name :: seen).toFinset := by simp
      have hinsert : (name :: rest).toFinset \ seen.toFinset =
          insert name (rest.toFinset \ (name :: seen).toFinset) := by
        ext x
        simp only [List.toFinset_cons, Finset.mem_sdiff, Finset.mem_insert, List.mem_toFinset]
        by_cases hx : x = name
        · simp [hx, hs]
        · simp [hx]
      rw [if_neg (by simpa using hs), hinsert, Finset.card_insert_of_notMem hfresh,
        List.length_cons, ← ih (name :: seen)]
      omega

/-- Within a list every name but one of each kind is a repetition. -/
theorem length_repeated (names : List String) :
    (repeated [] names).length = names.length - names.dedup.length := by
  have h := length_repeated_add [] names
  rw [List.toFinset_nil, Finset.sdiff_empty, List.card_toFinset] at h
  omega

theorem mem_of_repeated {seen names : List String} {name : String}
    (h : name ∈ repeated seen names) : name ∈ names := by
  induction names generalizing seen with
  | nil => simp [repeated] at h
  | cons other rest ih =>
    rw [repeated] at h
    split at h
    · rcases List.mem_cons.mp h with rfl | h
      · exact List.mem_cons_self
      · exact List.mem_cons_of_mem _ (ih h)
    · exact List.mem_cons_of_mem _ (ih h)

theorem firstByName_sublist (seen : List String) (ps : List Property) :
    (firstByName seen ps).Sublist ps := by
  induction ps generalizing seen with
  | nil => exact List.Sublist.slnil
  | cons p rest ih =>
    rw [firstByName]
    split
    · exact (ih seen).cons p
    · exact (ih _).cons_cons p

theorem not_mem_seen_of_firstByName {seen : List String} {ps : List Property} {p : Property}
    (h : p ∈ firstByName seen ps) : p.name ∉ seen := by
  induction ps generalizing seen with
  | nil => simp [firstByName] at h
  | cons q rest ih =>
    rw [firstByName] at h
    by_cases hq : q.name ∈ seen
    · rw [if_pos (by simpa using hq)] at h
      exact ih h
    · rw [if_neg (by simpa using hq)] at h
      rcases List.mem_cons.mp h with rfl | h
      · exact hq
      · exact fun hs => ih h (List.mem_cons_of_mem _ hs)

theorem firstByName_nodup (seen : List String) (ps : List Property) :
    ((firstByName seen ps).map Property.name).Nodup := by
  induction ps generalizing seen with
  | nil => simp [firstByName]
  | cons p rest ih =>
    rw [firstByName]
    split
    · exact ih seen
    · rw [List.map_cons, List.nodup_cons]
      refine ⟨fun hm => ?_, ih _⟩
      obtain ⟨q, hq, he⟩ := List.mem_map.mp hm
      exact not_mem_seen_of_firstByName hq (he ▸ List.mem_cons_self)

/-- The occurrences that come first have every name once. -/
theorem firstByName_perm (ps : List Property) :
    ((firstByName [] ps).map Property.name).Perm (ps.map Property.name).dedup := by
  refine (List.perm_ext_iff_of_nodup (firstByName_nodup [] ps) (List.nodup_dedup _)).mpr ?_
  intro name
  rw [List.mem_dedup]
  constructor
  · exact fun h => ((firstByName_sublist [] ps).map Property.name).subset h
  · intro h
    obtain ⟨p, hp, rfl⟩ := List.mem_map.mp h
    obtain ⟨q, hq, he⟩ := exists_firstByName hp List.not_mem_nil
    exact he ▸ List.mem_map_of_mem hq

/-- The different names that stand under two categories or more. -/
def Schema.sharedNames (schema : Schema) : List String :=
  (schema.occurrences.map Property.name).dedup.filter fun name =>
    2 ≤ Category.all.countP fun category => name ∈ schema.properties.names category

/-- How much longer a list is than it would be with each of its names once. -/
def surplus (names : List String) : Nat := names.length - names.dedup.length

theorem errorCount_ambiguity_eq (schema : Schema) :
    Finding.errorCount (Finding.ofAmbiguity schema) = schema.sharedNames.length := by
  have hlength : ∀ name, (schema.categoriesOf name).length =
      Category.all.countP fun category => name ∈ schema.properties.names category := by
    intro name
    rw [Schema.categoriesOf, ← List.countP_eq_length_filter]
    apply List.countP_congr
    simp
  have hmap : ((firstByName [] schema.occurrences).countP fun p =>
      2 ≤ (schema.categoriesOf p.name).length) =
        ((firstByName [] schema.occurrences).map Property.name).countP fun name =>
          2 ≤ (schema.categoriesOf name).length := by
    rw [List.countP_map]
    rfl
  rw [errorCount_ambiguity, hmap, (firstByName_perm schema.occurrences).countP_eq,
    Schema.sharedNames, ← List.countP_eq_length_filter]
  simp only [hlength]

theorem errorCount_duplicates (schema : Schema) :
    Finding.errorCount (Finding.ofDuplicates schema) =
      (Category.all.map fun category => surplus (schema.properties.names category)).sum := by
  have hone : ∀ category, ((repeated [] (schema.properties.names category)).map fun name =>
      Finding.duplicateProperty ⟨name, category⟩).countP (·.severity = .error) =
        surplus (schema.properties.names category) := by
    intro category
    rw [surplus, ← length_repeated, List.countP_map]
    simp [Function.comp_def, Finding.severity]
  simp only [Finding.ofDuplicates, Finding.errorCount, List.countP_flatMap, Function.comp_def, hone]

/-- A generated member takes `build` in every list, and four more names in those of the style. -/
theorem isReserved_iff {p : Property} :
    p.isReserved = true ↔ p.name = "build" ∨
      p.category ∈ [Category.typography, .shape, .shadow, .floatValue] ∧
        p.name ∈ ["colors", "dimensions", "colorsBuilder", "dimensionsBuilder"] := by
  have hmembers : styleMemberNames =
      ["colors", "dimensions", "colorsBuilder", "dimensionsBuilder"] := by decide
  rw [Property.isReserved, hmembers]
  simp only [Bool.or_eq_true, Bool.and_eq_true, beq_iff_eq, List.contains_iff_mem]
  rfl

/-- What the standard lints can have against an occurrence of a property. -/
def Schema.objections (schema : Schema) (p : Property) : List Finding :=
  [.invalidPropertyName p, .ambiguousProperty p (schema.categoriesOf p.name), .duplicateProperty p,
    .reservedProperty p]

theorem location_of_objection {schema : Schema} {p : Property} {finding : Finding}
    (h : finding ∈ schema.objections p) :
    finding.location = p.category.text ++ "_props." ++ p.name := by
  have hlocation : finding.location = p.location := by
    simp only [Schema.objections, List.mem_cons, List.not_mem_nil, or_false] at h
    rcases h with rfl | rfl | rfl | rfl <;> rfl
  have hplace : "_props" ++ "." = "_props." := by decide
  rw [hlocation, Property.location, Category.location, @String.append_assoc p.category.text, hplace]

section
variable {schema : Schema} {finding : Finding}

theorem objection_of_propertyNames (h : finding ∈ Finding.ofPropertyNames schema)
    (he : finding.severity = .error) :
    ∃ p ∈ schema.occurrences, finding ∈ schema.objections p := by
  obtain ⟨p, hp, hf⟩ := List.mem_flatMap.mp h
  refine ⟨p, hp, ?_⟩
  rw [Finding.ofPropertyName] at hf
  split at hf
  · obtain rfl := List.mem_singleton.mp hf
    simp [Schema.objections]
  · split at hf
    · obtain rfl := List.mem_singleton.mp hf
      exact absurd he (by simp [Finding.severity])
    · simp at hf

theorem objection_of_ambiguity (h : finding ∈ Finding.ofAmbiguity schema) :
    ∃ p ∈ schema.occurrences, finding ∈ schema.objections p := by
  obtain ⟨p, hp, hf⟩ := List.mem_filterMap.mp h
  refine ⟨p, (firstByName_sublist [] _).subset hp, ?_⟩
  dsimp only at hf
  split at hf
  · obtain rfl := Option.some.inj hf
    simp [Schema.objections]
  · simp at hf

theorem objection_of_duplicates (h : finding ∈ Finding.ofDuplicates schema) :
    ∃ p ∈ schema.occurrences, finding ∈ schema.objections p := by
  obtain ⟨category, _, hf⟩ := List.mem_flatMap.mp h
  obtain ⟨name, hn, rfl⟩ := List.mem_map.mp hf
  exact ⟨⟨name, category⟩, mem_occurrences.mpr (mem_of_repeated hn), by simp [Schema.objections]⟩

theorem objection_of_reservedNames (h : finding ∈ Finding.ofReservedNames schema) :
    ∃ p ∈ schema.occurrences, finding ∈ schema.objections p := by
  obtain ⟨p, hp, rfl⟩ := List.mem_map.mp h
  exact ⟨p, (List.mem_filter.mp hp).1, by simp [Schema.objections]⟩

end

/-- An error that is not about the component's name is an objection to an occurrence. -/
theorem exists_objection {schema : Schema} {d : Diagnostic}
    (hd : d ∈ Lint.checkAll Lint.standard schema) (he : d.isError = true) :
    d ∈ Lint.componentName.check schema ∨
      ∃ p ∈ schema.occurrences, ∃ finding ∈ schema.objections p, d = finding.diagnostic := by
  have hobjected : ∀ {findings : List Finding}, d ∈ findings.map Finding.diagnostic →
      (∀ finding ∈ findings, finding.severity = .error →
        ∃ p ∈ schema.occurrences, finding ∈ schema.objections p) →
      ∃ p ∈ schema.occurrences, ∃ finding ∈ schema.objections p, d = finding.diagnostic := by
    intro findings hd hobjection
    obtain ⟨finding, hf, rfl⟩ := List.mem_map.mp hd
    obtain ⟨p, hp, ho⟩ := hobjection finding hf (by
      simpa [Finding.diagnostic, Diagnostic.isError] using he)
    exact ⟨p, hp, finding, ho, rfl⟩
  obtain ⟨lint, hl, hd⟩ := List.mem_flatMap.mp hd
  simp only [Lint.standard, List.mem_cons, List.not_mem_nil, or_false] at hl
  rcases hl with rfl | rfl | rfl | rfl | rfl | rfl
  · exact .inl hd
  · exact .inr (hobjected hd fun _ => objection_of_propertyNames)
  · exact .inr (hobjected hd fun _ hf _ => objection_of_ambiguity hf)
  · exact .inr (hobjected hd fun _ hf _ => objection_of_duplicates hf)
  · exact .inr (hobjected hd fun _ hf _ => objection_of_reservedNames hf)
  · refine .inr (hobjected hd fun finding hf hsevere => ?_)
    obtain ⟨category, _, rfl⟩ := List.mem_map.mp hf
    exact absurd hsevere (by simp [Finding.severity])

/-- Validation adds diagnostics to whatever stands in the context. It finds an error for an unusable
component name, one for each occurrence with an unusable or a taken name, one for each name under
several categories and one for each repetition within a category; none is left exactly when all
names are usable, distinct and free, and those about properties tell where the property stands. -/
theorem validate_errors {m : Type → Type} [Monad m] (context : Context) :
    ∃ found, (Phase.validate Lint.standard : Phase m).run context =
        pure { context with diagnostics := context.diagnostics ++ found } ∧
      Diagnostic.errorCount found =
        (if isIdentifier context.schema.name then 0 else 1) +
        context.schema.occurrences.countP (!isIdentifier ·.name) +
        context.schema.sharedNames.length +
        (Category.all.map fun category =>
          surplus (context.schema.properties.names category)).sum +
        context.schema.occurrences.countP (fun p => p.name = "build" ∨
          p.category ∈ [Category.typography, .shape, .shadow, .floatValue] ∧
            p.name ∈ ["colors", "dimensions", "colorsBuilder", "dimensionsBuilder"]) ∧
      (Diagnostic.errorCount found = 0 ↔
        isIdentifier context.schema.name = true ∧
        (∀ p ∈ context.schema.occurrences, isIdentifier p.name = true) ∧
        (context.schema.occurrences.map Property.name).Nodup ∧
        ∀ p ∈ context.schema.occurrences, ¬(p.name = "build" ∨
          p.category ∈ [Category.typography, .shape, .shadow, .floatValue] ∧
            p.name ∈ ["colors", "dimensions", "colorsBuilder", "dimensionsBuilder"])) ∧
      ∀ d ∈ found, d.isError = true →
        d ∈ Lint.componentName.check context.schema ∨
          ∃ category, ∃ name ∈ context.schema.properties.names category,
            d.location = some (category.text ++ "_props." ++ name) ∧
              ∃ finding ∈ context.schema.objections ⟨name, category⟩, d = finding.diagnostic := by
  refine ⟨Lint.checkAll Lint.standard context.schema, rfl, ?_, ?_, fun d hd he => ?_⟩
  · have hreserved : context.schema.occurrences.countP Property.isReserved = _ :=
      List.countP_congr fun p _ => isReserved_iff.trans decide_eq_true_iff.symm
    rw [errorCount_standard, errorCount_componentName, errorCount_propertyNames,
      errorCount_ambiguity_eq, errorCount_duplicates, errorCount_reservedNames, hreserved]
  · rw [← accepts_iff_errorCount, accepts_iff_wellNamed]
    simp only [← isReserved_iff, Bool.not_eq_true]
    exact ⟨fun h => ⟨h.component, h.identifiers, h.distinct, h.unreserved⟩,
      fun ⟨hc, hi, hd, hu⟩ => ⟨hc, hi, hd, hu⟩⟩
  · refine (exists_objection hd he).imp_right ?_
    rintro ⟨p, hp, finding, hf, rfl⟩
    exact ⟨p.category, p.name, mem_occurrences.mp hp,
      congrArg some (location_of_objection hf), finding, hf, rfl⟩

/-- A schema with every kind of fault, in a context that holds an error already. -/
def faultyContext : Context where
  schema :=
    { name := "my-chip"
      properties :=
        { shape := ["x", "x", "build"]
          typography := ["colors"]
          color := ["x", "colors", "a-b"] } }
  diagnostics := [⟨.error, "scan", "unfinished", none⟩]

theorem faulty_validate_errors :
    ∃ found, (Phase.validate Lint.standard : Phase Id).run faultyContext =
        pure { faultyContext with diagnostics := faultyContext.diagnostics ++ found } ∧
      Diagnostic.errorCount found = 7 ∧
      ∃ d ∈ found, d.isError = true ∧ d.location = some "shape_props.x" ∧
        ∃ category, ∃ name ∈ faultyContext.schema.properties.names category,
          d.location = some (category.text ++ "_props." ++ name) := by
  obtain ⟨found, hrun, hcount, _, hlocated⟩ := validate_errors (m := Id) faultyContext
  obtain rfl : Lint.checkAll Lint.standard faultyContext.schema = found :=
    List.append_cancel_left (congrArg Context.diagnostics (Except.ok.inj hrun))
  refine ⟨_, hrun, hcount.trans (by decide +kernel), ?_⟩
  have hd : (Finding.duplicateProperty ⟨"x", .shape⟩).diagnostic ∈
      Lint.checkAll Lint.standard faultyContext.schema := by decide +kernel
  refine ⟨_, hd, rfl, by decide +kernel, ?_⟩
  rcases hlocated _ hd rfl with hcomponent | ⟨category, name, hn, hl, _⟩
  · exact absurd hcomponent (by decide +kernel)
  · exact ⟨category, name, hn, hl⟩

end StyleFamily
