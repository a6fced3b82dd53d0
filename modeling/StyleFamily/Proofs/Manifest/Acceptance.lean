import Mathlib.Data.List.Nodup
import StyleFamily.Manifest.Validation

/-!
# What validation accepts

The checks of a manifest are read back as what they ask for: identifiers for all names, types that
are not blank, and no name twice, among the declarations or among the parameters of one of them.
-/
namespace StyleFamily

/-- Two checks one after the other succeed when both do. -/
theorem bind_eq_ok {check : Except ε Unit} {next : Unit → Except ε β} {b : β} :
    check >>= next = .ok b ↔ check = .ok () ∧ next () = .ok b := by
  cases check <;> simp [bind, Except.bind]

/-- The two ways of looking at a name agree on what an identifier is. -/
theorem nameFault_eq_none {name : String} : nameFault? name = none ↔ isIdentifier name = true := by
  unfold nameFault? isIdentifier
  cases name.toList with
  | nil => simp
  | cons c rest =>
    dsimp only
    cases isNameStart c <;> cases rest.all isNamePart <;> simp

namespace SourceDeclaration

/-- A declaration in which validation finds no fault. -/
structure Acceptable (d : SourceDeclaration) : Prop where
  name : isIdentifier d.name = true
  parameterNames : ∀ p ∈ d.parameters, isIdentifier p.name = true
  parameterTypes : ∀ p ∈ d.parameters, Text.trimmed p.type.toList ≠ []
  distinct : (d.parameters.map (·.name)).Nodup

theorem acceptable_iff {d : SourceDeclaration} :
    d.Acceptable ↔ isIdentifier d.name = true ∧
      (∀ p ∈ d.parameters, isIdentifier p.name = true ∧ Text.trimmed p.type.toList ≠ []) ∧
        (d.parameters.map (·.name)).Nodup :=
  ⟨fun h => ⟨h.name, fun p hp => ⟨h.parameterNames p hp, h.parameterTypes p hp⟩, h.distinct⟩,
    fun ⟨hn, hp, hd⟩ => ⟨hn, fun p h => (hp p h).1, fun p h => (hp p h).2, hd⟩⟩

end SourceDeclaration

namespace Manifest

open SourceDeclaration (acceptable_iff)

theorem checkName_eq_ok {source : List Char} {name : String} {named : Named} :
    checkName source name named = .ok () ↔ isIdentifier name = true := by
  rw [checkName, ← nameFault_eq_none]
  cases nameFault? name <;> simp

/-- A list of names with one more in front, apart from those seen before. -/
theorem fresh_cons {name : String} {rest seen : List String} :
    (name :: rest).Nodup ∧ (∀ n ∈ name :: rest, n ∉ seen) ↔
      name ∉ seen ∧ rest.Nodup ∧ ∀ n ∈ rest, n ∉ name :: seen := by
  simp only [List.nodup_cons, List.mem_cons, forall_eq_or_imp, not_or]
  constructor
  · rintro ⟨⟨hm, hn⟩, hs, hr⟩
    exact ⟨hs, hn, fun n h => ⟨fun he => hm (he ▸ h), hr n h⟩⟩
  · rintro ⟨hs, hn, hr⟩
    exact ⟨⟨fun h => (hr name h).1 rfl, hn⟩, hs, fun n h => (hr n h).2⟩

theorem checkParameters_eq_ok {source : List Char} {declaration : String} {start : Nat}
    {seen : List String} {parameters : List SourceParameter} :
    checkParameters source declaration start seen parameters = .ok () ↔
      (∀ p ∈ parameters, isIdentifier p.name = true ∧ Text.trimmed p.type.toList ≠ []) ∧
        (parameters.map (·.name)).Nodup ∧ ∀ n ∈ parameters.map (·.name), n ∉ seen := by
  induction parameters generalizing seen with
  | nil => simp [checkParameters]
  | cons p rest ih =>
    rw [checkParameters, bind_eq_ok, checkName_eq_ok, List.map_cons, fresh_cons]
    by_cases ht : Text.trimmed p.type.toList = []
    · simp [ht]
    · by_cases hs : p.name ∈ seen
      · simp [ht, hs]
      · rw [if_neg (by simpa using ht), if_neg (by simpa using hs), ih]
        simp only [List.forall_mem_cons]
        tauto

theorem checkDeclarations_eq_ok {source : List Char} {seen : List String}
    {declarations : List SourceDeclaration} :
    checkDeclarations source seen declarations = .ok () ↔
      (∀ d ∈ declarations, d.Acceptable) ∧
        (declarations.map (·.name)).Nodup ∧ ∀ n ∈ declarations.map (·.name), n ∉ seen := by
  induction declarations generalizing seen with
  | nil => simp [checkDeclarations]
  | cons d rest ih =>
    rw [checkDeclarations, bind_eq_ok, checkName_eq_ok, List.map_cons, fresh_cons]
    by_cases hs : d.name ∈ seen
    · simp [hs]
    · rw [if_neg (by simpa using hs), bind_eq_ok, checkParameters_eq_ok, ih]
      simp only [List.forall_mem_cons, acceptable_iff]
      simp only [List.not_mem_nil, not_false_eq_true, implies_true, and_true]
      tauto

/-- A manifest is accepted exactly when its package is one, its owner is not blank and its
declarations are acceptable and have different names. -/
theorem validate_eq_ok {source : List Char} {manifest : Manifest} :
    manifest.validate source = .ok () ↔
      packageFault? manifest.output.package = none ∧
        Text.trimmed manifest.scanner.owner.toList ≠ [] ∧
        (∀ d ∈ manifest.declarations, d.Acceptable) ∧
        (manifest.declarations.map (·.name)).Nodup := by
  unfold validate
  cases packageFault? manifest.output.package with
  | some fault => simp
  | none =>
    by_cases ho : Text.trimmed manifest.scanner.owner.toList = []
    · simp [ho]
    · simp [ho, checkDeclarations_eq_ok]

end Manifest
end StyleFamily
