import Mathlib.Data.List.Sort
import StyleFamily.Manifest
import StyleFamily.Proofs.Manifest.CanonicalLayout

/-!
# Manifests in canonical layout

A manifest as it is written line by line, and the places of its values. The places stand in the
text in one order, which the manifest alone decides; so each place is there once.
-/
namespace StyleFamily
open Quotation Canonical

/-- The table of the output; a key may be left out. -/
structure OutputTable where
  package : Option String := none
  directory : Option String := none

/-- The table of the scanner; a key may be left out. -/
structure ScannerTable where
  owner : Option String := none
  suffix : Option String := none

/-- What a manifest in canonical layout says; both tables may be left out. -/
structure CanonicalManifest where
  output : Option OutputTable := none
  scanner : Option ScannerTable := none
  declarations : List SourceDeclaration := []

def OutputTable.lines (table : OutputTable) : List ManifestLine :=
  .table .output :: (table.package.map (ManifestLine.value .package)).toList ++
    (table.directory.map (ManifestLine.value .directory)).toList

def ScannerTable.lines (table : ScannerTable) : List ManifestLine :=
  .table .scanner :: (table.owner.map (ManifestLine.value .owner)).toList ++
    (table.suffix.map (ManifestLine.value .suffix)).toList

namespace CanonicalManifest

/-- The lines of a parameter of the declaration at an index, with its own index. -/
def parameterLines (i : Nat) : SourceParameter × Nat → List ManifestLine
  | (p, j) => [.table .parameter, .value (.parameter i j) p.name, .value (.type i j) p.type]

/-- The lines of a declaration with its index. -/
def declarationLines : SourceDeclaration × Nat → List ManifestLine
  | (d, i) => .table .declaration :: .value (.declaration i) d.name ::
    .supertypes i d.supertypes :: d.parameters.zipIdx.flatMap (parameterLines i)

def lines (c : CanonicalManifest) : List ManifestLine :=
  (c.output.elim [] OutputTable.lines ++ c.scanner.elim [] ScannerTable.lines) ++
    c.declarations.zipIdx.flatMap declarationLines

/-- The manifest that the lines spell: what is left out takes its default. -/
def manifest (c : CanonicalManifest) : Manifest :=
  let output : OutputSettings := {}
  let scanner : ScannerSettings := {}
  { output :=
      { package := (c.output.bind (·.package)).getD output.package
        directory := ⟨(c.output.bind (·.directory)).getD output.directory.text⟩ }
    scanner :=
      { owner := (c.scanner.bind (·.owner)).getD scanner.owner
        suffix := (c.scanner.bind (·.suffix)).getD scanner.suffix }
    declarations := c.declarations }

/-- The lines of a text in canonical layout: blank lines may stand anywhere. -/
def WrittenAs (c : CanonicalManifest) (lines : List ManifestLine) : Prop :=
  lines.filter (! ·.isBlank) = c.lines

instance (c : CanonicalManifest) (lines : List ManifestLine) : Decidable (c.WrittenAs lines) :=
  inferInstanceAs (Decidable (_ = _))

end CanonicalManifest

namespace Canonical

/-- The places of a line with their texts. -/
def ManifestLine.values (line : ManifestLine) : List (Position × String) :=
  (line.entries 0).map fun e => (e.place, e.text)

theorem separators_values (i k start start' : Nat) (before : String) (texts : List String) :
    (separators i k start before texts).map (fun e => (e.place, e.text)) =
      (separators i k start' before texts).map fun e => (e.place, e.text) := by
  induction texts generalizing k start start' before with
  | nil => rfl
  | cons text rest ih =>
    rw [separators, separators, List.map_append, List.map_append, ih]
    split <;> rfl

/-- The entries of lines are their values, wherever the lines start. -/
theorem entries_values (start : Nat) (lines : List ManifestLine) :
    (entries start lines).map (fun e => (e.place, e.text)) = lines.flatMap ManifestLine.values := by
  induction lines generalizing start with
  | nil => rfl
  | cons line rest ih =>
    rw [entries, List.map_append, ih, List.flatMap_cons, ManifestLine.values]
    rcases line with _ | _ | _ | ⟨i, _ | ⟨text, texts⟩⟩
    · rfl
    · rfl
    · rfl
    · rfl
    · rw [ManifestLine.entries, separators_values]
      rfl

/-- Where a place stands in the order of the text: tables, declarations, parameters. -/
def Position.rank : Position → Nat × Nat × Nat
  | .package => (0, 0, 0)
  | .directory => (0, 0, 1)
  | .owner => (0, 0, 2)
  | .suffix => (0, 0, 3)
  | .declaration i => (i + 1, 0, 0)
  | .separator i k => (i + 1, 0, k + 1)
  | .parameter i j => (i + 1, j + 1, 0)
  | .type i j => (i + 1, j + 1, 1)

def Position.Before (p q : Position) : Prop :=
  p.rank.1 < q.rank.1 ∨ p.rank.1 = q.rank.1 ∧
    (p.rank.2.1 < q.rank.2.1 ∨ p.rank.2.1 = q.rank.2.1 ∧ p.rank.2.2 < q.rank.2.2)

theorem Position.Before.asymm {p q : Position} (h : p.Before q) : ¬ q.Before p := by
  unfold Before at *
  omega

theorem Position.Before.ne {p q : Position} (h : p.Before q) : p ≠ q := by
  rintro rfl
  exact h.asymm h

end Canonical

namespace CanonicalManifest
variable (c : CanonicalManifest)

/-- The places of a manifest with their texts, in the order of the text. -/
def values : List (Position × String) := c.lines.flatMap ManifestLine.values

/-- The values of a parameter. -/
def parameterValues (i : Nat) : SourceParameter × Nat → List (Position × String)
  | (p, j) => [(.parameter i j, p.name), (.type i j, p.type)]

def declarationValues : SourceDeclaration × Nat → List (Position × String)
  | (d, i) => (.declaration i, d.name) :: (ManifestLine.supertypes i d.supertypes).values ++
    d.parameters.zipIdx.flatMap (parameterValues i)

theorem flatMap_declarationLines (entry : SourceDeclaration × Nat) :
    (declarationLines entry).flatMap ManifestLine.values = declarationValues entry := by
  obtain ⟨d, i⟩ := entry
  have hparameters : ∀ entries : List (SourceParameter × Nat),
      (entries.flatMap (parameterLines i)).flatMap ManifestLine.values =
        entries.flatMap (parameterValues i) := by
    intro entries
    rw [List.flatMap_assoc]
    rfl
  simp only [declarationLines, declarationValues, List.flatMap_cons, hparameters]
  rfl

theorem values_eq : c.values =
    (c.output.elim [] OutputTable.lines ++ c.scanner.elim [] ScannerTable.lines).flatMap
      ManifestLine.values ++ c.declarations.zipIdx.flatMap declarationValues := by
  rw [values, lines, List.flatMap_append, List.flatMap_assoc]
  simp only [flatMap_declarationLines]

/-- The tables come first, each with its keys in their order. -/
theorem tablePlaces_sublist :
    (((c.output.elim [] OutputTable.lines ++ c.scanner.elim [] ScannerTable.lines).flatMap
      ManifestLine.values).map (·.1)).Sublist [.package, .directory, .owner, .suffix] := by
  have houtput : (((c.output.elim [] OutputTable.lines).flatMap ManifestLine.values).map
      (·.1)).Sublist [.package, .directory] := by
    rcases c.output with _ | ⟨_ | package, _ | directory⟩ <;>
      simp [OutputTable.lines, ManifestLine.values, ManifestLine.entries]
  have hscanner : (((c.scanner.elim [] ScannerTable.lines).flatMap ManifestLine.values).map
      (·.1)).Sublist [.owner, .suffix] := by
    rcases c.scanner with _ | ⟨_ | owner, _ | suffix⟩ <;>
      simp [ScannerTable.lines, ManifestLine.values, ManifestLine.entries]
  rw [List.flatMap_append, List.map_append]
  exact houtput.append hscanner

theorem pairwise_zipIdx {α : Type} (xs : List α) (k : Nat) :
    (xs.zipIdx k).Pairwise fun a b => a.2 < b.2 := by
  rw [← List.pairwise_map (f := Prod.snd) (R := (· < ·)), List.zipIdx_map_snd]
  exact List.pairwise_lt_range'

theorem separators_places {i k start : Nat} {before : String} {texts : List String} {e : LineEntry}
    (h : e ∈ separators i k start before texts) :
    e.text = ", " ∧ ∃ l, k ≤ l ∧ e.place = .separator i l := by
  induction texts generalizing k start before with
  | nil => cases h
  | cons text rest ih =>
    rw [separators, List.mem_append] at h
    rcases h with hfirst | hrest
    · split at hfirst
      · obtain rfl := List.mem_singleton.mp hfirst
        exact ⟨rfl, k, Nat.le_refl k, rfl⟩
      · cases hfirst
    · obtain ⟨htext, l, hl, hplace⟩ := ih hrest
      exact ⟨htext, l, by omega, hplace⟩

theorem pairwise_separatorPlaces (i k start : Nat) (before : String) (texts : List String) :
    (separators i k start before texts).Pairwise fun e e' => e.place.Before e'.place := by
  induction texts generalizing k start before with
  | nil => exact .nil
  | cons text rest ih =>
    rw [separators, List.pairwise_append]
    refine ⟨by split <;> simp, ih _ _ _, fun e he e' he' => ?_⟩
    obtain ⟨_, l, hl, hplace⟩ := separators_places he'
    split at he
    · obtain rfl := List.mem_singleton.mp he
      rw [hplace]
      exact .inr ⟨rfl, .inr ⟨rfl, Nat.succ_lt_succ hl⟩⟩
    · cases he

theorem rank_of_mem_supertypes {i : Nat} {texts : List String} {value : Position × String}
    (h : value ∈ (ManifestLine.supertypes i texts).values) :
    ∃ l, value.1.rank = (i + 1, 0, l + 1) := by
  obtain ⟨e, he, rfl⟩ := List.mem_map.mp h
  cases texts with
  | nil => cases he
  | cons text rest =>
    obtain ⟨_, l, _, hplace⟩ := separators_places he
    exact ⟨l, congrArg Position.rank hplace⟩

theorem rank_of_mem_parameterValues {i : Nat} {entry : SourceParameter × Nat}
    {value : Position × String} (h : value ∈ parameterValues i entry) :
    ∃ m, value.1.rank = (i + 1, entry.2 + 1, m) := by
  obtain ⟨p, j⟩ := entry
  simp only [parameterValues, List.mem_cons, List.not_mem_nil, or_false] at h
  rcases h with rfl | rfl
  · exact ⟨0, rfl⟩
  · exact ⟨1, rfl⟩

theorem pairwise_supertypes (i : Nat) (texts : List String) :
    (ManifestLine.supertypes i texts).values.Pairwise fun v w => v.1.Before w.1 := by
  rw [ManifestLine.values, List.pairwise_map]
  cases texts with
  | nil => exact .nil
  | cons text rest => exact pairwise_separatorPlaces _ _ _ _ _

theorem pairwise_parameterValues (i : Nat) (parameters : List SourceParameter) :
    (parameters.zipIdx.flatMap (parameterValues i)).Pairwise fun v w => v.1.Before w.1 := by
  rw [List.pairwise_flatMap]
  constructor
  · rintro ⟨p, j⟩ _
    simp [parameterValues, Position.Before, Position.rank]
  · refine (pairwise_zipIdx parameters 0).imp fun hlt v hv w hw => ?_
    obtain ⟨m, hm⟩ := rank_of_mem_parameterValues hv
    obtain ⟨n, hn⟩ := rank_of_mem_parameterValues hw
    rw [Position.Before, hm, hn]
    exact .inr ⟨rfl, .inl (Nat.succ_lt_succ hlt)⟩

theorem rank_of_mem_declarationValues {entry : SourceDeclaration × Nat} {value : Position × String}
    (h : value ∈ declarationValues entry) : value.1.rank.1 = entry.2 + 1 := by
  obtain ⟨d, i⟩ := entry
  simp only [declarationValues, List.cons_append, List.mem_cons, List.mem_append,
    List.mem_flatMap] at h
  rcases h with rfl | hs | ⟨entry, _, hp⟩
  · rfl
  · obtain ⟨l, hl⟩ := rank_of_mem_supertypes hs
    rw [hl]
  · obtain ⟨m, hm⟩ := rank_of_mem_parameterValues hp
    rw [hm]

theorem pairwise_declarationValues (entry : SourceDeclaration × Nat) :
    (declarationValues entry).Pairwise fun v w => v.1.Before w.1 := by
  obtain ⟨d, i⟩ := entry
  have hname : (Position.declaration i).rank = (i + 1, 0, 0) := rfl
  rw [declarationValues, List.cons_append, List.pairwise_cons, List.pairwise_append]
  refine ⟨fun w hw => ?_, pairwise_supertypes _ _, pairwise_parameterValues _ _, ?_⟩
  · rw [Position.Before, hname]
    rcases List.mem_append.mp hw with hs | hp
    · obtain ⟨l, hl⟩ := rank_of_mem_supertypes hs
      exact .inr ⟨by rw [hl], .inr (by rw [hl]; simp)⟩
    · obtain ⟨entry, _, hentry⟩ := List.mem_flatMap.mp hp
      obtain ⟨m, hm⟩ := rank_of_mem_parameterValues hentry
      exact .inr ⟨by rw [hm], .inl (by rw [hm]; simp)⟩
  · intro v hv w hw
    obtain ⟨l, hl⟩ := rank_of_mem_supertypes hv
    obtain ⟨entry, _, hentry⟩ := List.mem_flatMap.mp hw
    obtain ⟨m, hm⟩ := rank_of_mem_parameterValues hentry
    rw [Position.Before, hl, hm]
    exact .inr ⟨rfl, .inl (Nat.succ_pos _)⟩

/-- The places stand in the text in their order, so each of them once. -/
theorem pairwise_values : c.values.Pairwise fun v w => v.1.Before w.1 := by
  have htables : [Position.package, .directory, .owner, .suffix].Pairwise Position.Before := by
    simp [Position.Before, Position.rank]
  rw [values_eq, List.pairwise_append]
  refine ⟨?_, List.pairwise_flatMap.mpr ⟨fun entry _ => pairwise_declarationValues entry, ?_⟩, ?_⟩
  · exact List.pairwise_map.mp (htables.sublist (tablePlaces_sublist c))
  · refine (pairwise_zipIdx c.declarations 0).imp fun hlt v hv w hw => .inl ?_
    rw [rank_of_mem_declarationValues hv, rank_of_mem_declarationValues hw]
    exact Nat.succ_lt_succ hlt
  · intro v hv w hw
    obtain ⟨entry, _, he⟩ := List.mem_flatMap.mp hw
    have hplace := (tablePlaces_sublist c).subset (List.mem_map_of_mem hv)
    have hzero : v.1.rank.1 = 0 := by
      simp only [List.mem_cons, List.not_mem_nil, or_false] at hplace
      rcases hplace with h | h | h | h <;> rw [h] <;> rfl
    refine .inl ?_
    rw [hzero, rank_of_mem_declarationValues he]
    exact Nat.succ_pos _

instance : Std.Antisymm fun v w : Position × String => v.1.Before w.1 :=
  ⟨fun _ _ h h' => absurd h' h.asymm⟩

/-- Values in their order stand so in the text. -/
theorem sublist_values {some : List (Position × String)}
    (ho : some.Pairwise fun v w => v.1.Before w.1) (hs : ∀ value ∈ some, value ∈ c.values) :
    some.Sublist c.values := by
  have hnodup : some.Nodup := ho.imp fun h he => h.ne (congrArg Prod.fst he)
  exact List.sublist_of_subperm_of_pairwise (List.subperm_of_subset hnodup hs) ho c.pairwise_values

theorem mem_values_declaration {i : Nat} {d : SourceDeclaration}
    (hd : c.declarations[i]? = some d) : (.declaration i, d.name) ∈ c.values := by
  rw [values_eq]
  exact List.mem_append_right _ (List.mem_flatMap.mpr
    ⟨(d, i), List.mem_zipIdx_iff_getElem?.mpr hd, List.mem_cons_self⟩)

theorem mem_values_parameter {i j : Nat} {d : SourceDeclaration} {p : SourceParameter}
    (hd : c.declarations[i]? = some d) (hp : d.parameters[j]? = some p) :
    (.parameter i j, p.name) ∈ c.values := by
  have hparameter : (.parameter i j, p.name) ∈ declarationValues (d, i) :=
    List.mem_append_right _ (List.mem_flatMap.mpr
      ⟨(p, j), List.mem_zipIdx_iff_getElem?.mpr hp, List.mem_cons_self⟩)
  rw [values_eq]
  exact List.mem_append_right _ (List.mem_flatMap.mpr
    ⟨(d, i), List.mem_zipIdx_iff_getElem?.mpr hd, hparameter⟩)

theorem mem_values_package {package : String} (h : c.output.bind (·.package) = some package) :
    (.package, package) ∈ c.values := by
  obtain ⟨table, htable, hp⟩ := Option.bind_eq_some_iff.mp h
  rw [values_eq, htable, List.mem_append]
  refine .inl (List.mem_flatMap.mpr ⟨.value .package package, ?_, List.mem_cons_self⟩)
  simp [OutputTable.lines, hp]

theorem nodup_places : (c.values.map (·.1)).Nodup := by
  rw [List.nodup_iff_pairwise_ne, List.pairwise_map]
  exact c.pairwise_values.imp Position.Before.ne

/-- All that a manifest says is written without quotes, backslashes and control characters. -/
def Plain : Prop := ∀ line ∈ c.lines, line.Plain

instance : Decidable c.Plain := List.decidableBAll _ c.lines

theorem plain_lines (hc : c.Plain) {lines : List ManifestLine} (h : c.WrittenAs lines) :
    ∀ line ∈ lines, line.Plain := by
  intro line hl
  by_cases hb : line.isBlank = true
  · cases line with
    | blank => trivial
    | _ => cases hb
  · refine hc line ?_
    rw [← h, List.mem_filter]
    exact ⟨hl, by simpa using hb⟩

theorem plain_of_mem_values (hc : c.Plain) {value : Position × String} (h : value ∈ c.values) :
    Canonical.Plain value.2 := by
  obtain ⟨line, hl, hv⟩ := List.mem_flatMap.mp h
  obtain ⟨e, he, rfl⟩ := List.mem_map.mp hv
  have hplain := hc line hl
  rcases line with _ | _ | ⟨place, text⟩ | ⟨i, _ | ⟨text, rest⟩⟩
  · cases he
  · cases he
  · obtain rfl := List.mem_singleton.mp he
    exact hplain
  · cases he
  · simp only
    rw [(separators_places he).1]
    decide

end CanonicalManifest
end StyleFamily
