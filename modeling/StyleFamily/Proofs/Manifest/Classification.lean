import Mathlib.Data.List.Nodup
import Mathlib.Data.List.Perm.Basic
import StyleFamily.Manifest.Scan
import StyleFamily.Proofs.Text.Cut

/-!
# What a scan comes to

Looking through the declarations of a manifest ends in one of three ways, and each of them is told
from the texts of the manifest alone. The first declaration that lists the owner decides. If its
name ends as it should, its parameters are filed one after another: under the first category whose
marker their type holds, or under none, with a note if there is no marker or more than one.
-/
namespace StyleFamily

/-- The categories whose markers stand in the type, in the order of classification. -/
structure SourceParameter.Marked (p : SourceParameter) (categories : List Category) : Prop where
  mem_iff : ∀ c, c ∈ categories ↔ c.marker.toList <:+: p.type.toList
  ordered : categories.Sublist Category.classificationOrder

theorem categories_mem_iff (p : SourceParameter) (c : Category) :
    c ∈ p.categories ↔ c.marker.toList <:+: p.type.toList := by
  simp [SourceParameter.categories, Category.ofType, Text.contains, Text.occursIn_iff,
    Category.mem_classificationOrder]

theorem marked_iff {p : SourceParameter} {categories : List Category} :
    p.Marked categories ↔ p.categories = categories := by
  have hsub : p.categories.Sublist Category.classificationOrder := List.filter_sublist
  constructor
  · intro h
    have hn : Category.classificationOrder.Nodup := by decide
    have hinner : (categories.filter fun c => Text.contains p.type c.marker) = categories := by
      rw [List.filter_eq_self]
      intro c hc
      exact Text.occursIn_iff.mpr ((h.mem_iff c).mp hc)
    have hle : categories.Sublist p.categories := by
      have hf := h.ordered.filter fun c => Text.contains p.type c.marker
      rwa [hinner] at hf
    have hperm : categories.Perm p.categories := by
      rw [List.perm_ext_iff_of_nodup (hn.sublist h.ordered) (hn.sublist hsub)]
      intro c
      rw [h.mem_iff, categories_mem_iff]
    exact (hle.eq_of_length hperm.length_eq).symm
  · rintro rfl
    exact ⟨categories_mem_iff p, hsub⟩

/-- One more name at the head of the list of a category; the other lists are the same. -/
structure Properties.Gains (properties before : Properties) (category : Category) (name : String) :
    Prop where
  own : properties.names category = name :: before.names category
  others : ∀ c, c ≠ category → properties.names c = before.names c

/-- What is noted of a parameter without a marker. -/
def ScanNote.skipped (holder : String) (p : SourceParameter) : ScanNote where
  message :=
    "parameter '" ++ p.name ++ "' has type '" ++ p.type ++ "' which matches no category, skipped"
  location := some (holder ++ ".param." ++ p.name)

/-- What is noted of a parameter with several markers, of which the first decides. -/
def ScanNote.contested (holder : String) (p : SourceParameter) (first : Category)
    (others : List Category) : ScanNote where
  message :=
    "type '" ++ p.type ++ "' of parameter '" ++ p.name ++
      "' matches several categories, classified as " ++ first.text ++ " over " ++
      ", ".intercalate (others.map Category.text)
  location := some (holder ++ ".param." ++ p.name)

/-- The parameters of a holder filed one after another, with the notes that are made of them. -/
inductive Classifies (holder : String) :
    List SourceParameter → Properties → List ScanNote → Prop
  | nil : Classifies holder [] {} []
  | skipped {p : SourceParameter} {rest : List SourceParameter} {properties : Properties}
    {notes : List ScanNote} (hm : p.Marked []) (hr : Classifies holder rest properties notes) :
    Classifies holder (p :: rest) properties (.skipped holder p :: notes)
  | classified {p : SourceParameter} {rest : List SourceParameter} {properties before : Properties}
    {notes : List ScanNote} {c : Category} (hm : p.Marked [c])
    (hg : properties.Gains before c p.name) (hr : Classifies holder rest before notes) :
    Classifies holder (p :: rest) properties notes
  | contested {p : SourceParameter} {rest : List SourceParameter} {properties before : Properties}
    {notes : List ScanNote} {c other : Category} {others : List Category}
    (hm : p.Marked (c :: other :: others)) (hg : properties.Gains before c p.name)
    (hr : Classifies holder rest before notes) :
    Classifies holder (p :: rest) properties (.contested holder p c (other :: others) :: notes)

theorem properties_names_ext {first second : Properties}
    (h : ∀ c, first.names c = second.names c) : first = second := by
  rw [← Properties.ofFunction_names first, ← Properties.ofFunction_names second, funext h]

theorem Properties.Gains.unique {first second before : Properties} {category : Category}
    {name : String} (hf : first.Gains before category name)
    (hs : second.Gains before category name) : first = second := by
  apply properties_names_ext
  intro c
  by_cases hc : c = category
  · rw [hc, hf.own, hs.own]
  · rw [hf.others c hc, hs.others c hc]

section
variable {holder : String} {supertypes : List String} {p : SourceParameter}
  {rest : List SourceParameter}

/-- A parameter with a category comes first in its list. -/
theorem gains_properties {c : Category} {others : List Category} (h : p.categories = c :: others) :
    (SourceDeclaration.mk holder supertypes (p :: rest)).properties.Gains
      (SourceDeclaration.mk holder supertypes rest).properties c p.name := by
  have hc : p.category? = some c := by rw [SourceParameter.category?, h, List.head?_cons]
  constructor
  · simp [SourceDeclaration.properties, hc]
  · intro other ho
    simp [SourceDeclaration.properties, hc, ho.symm]

theorem properties_of_unmarked (h : p.categories = []) :
    (SourceDeclaration.mk holder supertypes (p :: rest)).properties =
      (SourceDeclaration.mk holder supertypes rest).properties := by
  have hc : p.category? = none := by rw [SourceParameter.category?, h, List.head?_nil]
  simp [SourceDeclaration.properties, hc]

theorem note?_of_unmarked (h : p.categories = []) :
    p.note? holder = some (.skipped holder p) := by
  rw [SourceParameter.note?, h]
  rfl

theorem note?_of_marked {c : Category} (h : p.categories = [c]) : p.note? holder = none := by
  rw [SourceParameter.note?, h]

theorem note?_of_contested {c other : Category} {others : List Category}
    (h : p.categories = c :: other :: others) :
    p.note? holder = some (.contested holder p c (other :: others)) := by
  rw [SourceParameter.note?, h]
  rfl

theorem notes_cons {note : ScanNote} (h : p.note? holder = some note) :
    (SourceDeclaration.mk holder supertypes (p :: rest)).notes =
      note :: (SourceDeclaration.mk holder supertypes rest).notes := by
  simp [SourceDeclaration.notes, h]

theorem notes_of_note?_eq_none (h : p.note? holder = none) :
    (SourceDeclaration.mk holder supertypes (p :: rest)).notes =
      (SourceDeclaration.mk holder supertypes rest).notes := by
  simp [SourceDeclaration.notes, h]

end

/-- A declaration's lists and notes are what filing its parameters leads to, and nothing else is. -/
theorem classifies_iff {d : SourceDeclaration} {properties : Properties} {notes : List ScanNote} :
    Classifies d.name d.parameters properties notes ↔
      properties = d.properties ∧ notes = d.notes := by
  obtain ⟨holder, supertypes, parameters⟩ := d
  constructor
  · intro h
    dsimp only at h
    induction h with
    | nil => exact ⟨rfl, rfl⟩
    | skipped hm hr ih =>
      have hc := marked_iff.mp hm
      rw [properties_of_unmarked hc, notes_cons (note?_of_unmarked hc), ← ih.1, ← ih.2]
      exact ⟨rfl, rfl⟩
    | classified hm hg hr ih =>
      have hc := marked_iff.mp hm
      rw [notes_of_note?_eq_none (note?_of_marked hc), ← ih.2]
      exact ⟨hg.unique (ih.1 ▸ gains_properties hc), rfl⟩
    | contested hm hg hr ih =>
      have hc := marked_iff.mp hm
      rw [notes_cons (note?_of_contested hc), ← ih.2]
      exact ⟨hg.unique (ih.1 ▸ gains_properties hc), rfl⟩
  · rintro ⟨rfl, rfl⟩
    induction parameters with
    | nil => exact .nil
    | cons p rest ih =>
      cases hc : p.categories with
      | nil =>
        rw [properties_of_unmarked hc, notes_cons (note?_of_unmarked hc)]
        exact .skipped (marked_iff.mpr hc) ih
      | cons c others =>
        cases others with
        | nil =>
          rw [notes_of_note?_eq_none (note?_of_marked hc)]
          exact .classified (marked_iff.mpr hc) (gains_properties hc) ih
        | cons other others =>
          rw [notes_cons (note?_of_contested hc)]
          exact .contested (marked_iff.mpr hc) (gains_properties hc) ih

/-- Whether a note says of a parameter that it was skipped. -/
def ScanNote.isSkip (note : ScanNote) : Bool :=
  " which matches no category, skipped".toList.isSuffixOf note.message.toList

theorem isSkip_skipped (holder : String) (p : SourceParameter) :
    (ScanNote.skipped holder p).isSkip = true := by
  have hmark : "' which matches no category, skipped" =
      "'" ++ " which matches no category, skipped" := rfl
  rw [ScanNote.isSkip, ScanNote.skipped, List.isSuffixOf_iff_suffix, hmark, ← String.append_assoc,
    String.toList_append]
  exact List.suffix_append _ _

/-- A list of categories ends as the last of them does. -/
theorem getLast?_intercalate (c : Category) (others : List Category) :
    ∃ last : Category, (", ".intercalate ((c :: others).map Category.text)).toList.getLast? =
      last.text.toList.getLast? := by
  induction others generalizing c with
  | nil => exact ⟨c, by simp⟩
  | cons other rest ih =>
    obtain ⟨last, hl⟩ := ih other
    refine ⟨last, ?_⟩
    rw [List.map_cons] at hl
    rw [List.map_cons, List.map_cons, String.intercalate_cons_cons, String.toList_append,
      List.getLast?_append, hl]
    cases last <;> rfl

/-- Skips end in a letter that no category ends in. -/
theorem isSkip_contested (holder : String) (p : SourceParameter) (c other : Category)
    (others : List Category) :
    (ScanNote.contested holder p c (other :: others)).isSkip = false := by
  obtain ⟨last, hl⟩ := getLast?_intercalate other others
  rw [← Bool.not_eq_true, ScanNote.isSkip, ScanNote.contested, List.isSuffixOf_iff_suffix]
  rintro ⟨front, hf⟩
  have hlast := congrArg List.getLast? hf
  rw [String.toList_append, List.getLast?_append, List.getLast?_append, hl] at hlast
  cases last <;> simp [Category.text] at hlast

theorem Properties.Gains.size {properties before : Properties} {category : Category} {name : String}
    (h : properties.Gains before category name) : properties.size = before.size + 1 := by
  have hown := h.own
  have hothers := h.others
  cases category <;> simp [Properties.size, Category.all, hown, hothers] <;> omega

/-- Every parameter is filed or skipped. -/
theorem Classifies.count {holder : String} {parameters : List SourceParameter}
    {properties : Properties} {notes : List ScanNote}
    (h : Classifies holder parameters properties notes) :
    properties.size + notes.countP ScanNote.isSkip = parameters.length := by
  induction h with
  | nil => rfl
  | skipped hm hr ih =>
    rw [List.countP_cons_of_pos (isSkip_skipped _ _), List.length_cons, ← ih]
    omega
  | classified hm hg hr ih =>
    rw [hg.size, List.length_cons, ← ih]
    omega
  | contested hm hg hr ih =>
    rw [hg.size, List.countP_cons_of_neg (by simp [isSkip_contested]), List.length_cons, ← ih]
    omega

theorem baseName?_eq_some {holder suffix base : String} :
    baseName? holder suffix = some base ↔ holder = base ++ suffix ∧ base ≠ "" := by
  rw [baseName?, Option.filter_eq_some_iff, decide_eq_true_eq, Text.withoutSuffix?_eq_some]

theorem baseName?_eq_none {holder suffix : String} :
    baseName? holder suffix = none ↔ ¬ suffix.toList <:+ holder.toList ∨ holder = suffix := by
  rw [Option.eq_none_iff_forall_ne_some]
  simp only [ne_eq, baseName?_eq_some, not_and, not_not]
  constructor
  · intro h
    by_cases hs : suffix.toList <:+ holder.toList
    · obtain ⟨front, hf⟩ := hs
      have hh : holder = String.ofList front ++ suffix := by
        rw [← String.toList_inj, String.toList_append, String.toList_ofList, hf]
      rw [h _ hh, String.empty_append] at hh
      exact .inr hh
    · exact .inl hs
  · rintro (hs | rfl) base hb
    · refine absurd ?_ hs
      rw [hb, String.toList_append]
      exact List.suffix_append _ _
    · rw [← String.toList_inj, String.toList_append] at hb
      simpa using hb

/-- One of the declaration's supertypes is the owner, apart from blanks around either. -/
def SourceDeclaration.Lists (d : SourceDeclaration) (owner : String) : Prop :=
  ∃ s ∈ d.supertypes, Text.trim s = Text.trim owner

/-- The first declaration that lists the owner. -/
def Manifest.IsHolder (manifest : Manifest) (d : SourceDeclaration) : Prop :=
  d.Lists manifest.scanner.owner ∧ ∃ before after, manifest.declarations = before ++ d :: after ∧
    ∀ b ∈ before, ¬ b.Lists manifest.scanner.owner

theorem extends_iff {d : SourceDeclaration} {owner : String} :
    d.extends (Text.trim owner) = true ↔ d.Lists owner := by
  simp [SourceDeclaration.extends, SourceDeclaration.Lists]

theorem holder?_eq_some {manifest : Manifest} {d : SourceDeclaration} :
    manifest.holder? = some d ↔ manifest.IsHolder d := by
  rw [Manifest.holder?, List.find?_eq_some_iff_append, extends_iff, Manifest.IsHolder]
  simp only [Bool.not_eq_true', ← Bool.not_eq_true, extends_iff]

theorem holder?_eq_none {manifest : Manifest} :
    manifest.holder? = none ↔
      ∀ d ∈ manifest.declarations, ¬ d.Lists manifest.scanner.owner := by
  simp only [Manifest.holder?, List.find?_eq_none, extends_iff]

section
variable {manifest : Manifest}

theorem scan_eq_noHolder : manifest.scan = .noHolder ↔ manifest.holder? = none := by
  unfold Manifest.scan
  cases manifest.holder? with
  | none => simp
  | some d => cases hb : baseName? d.name manifest.scanner.suffix <;> simp [hb]

theorem scan_eq_underivableName {declaration suffix : String} :
    manifest.scan = .underivableName declaration suffix ↔
      ∃ d, manifest.holder? = some d ∧
        (d.name = declaration ∧ manifest.scanner.suffix = suffix) ∧
        baseName? d.name manifest.scanner.suffix = none := by
  unfold Manifest.scan
  cases manifest.holder? with
  | none => simp
  | some d => cases hb : baseName? d.name manifest.scanner.suffix <;> simp [hb]

theorem scan_eq_found_iff {schema : Schema} {notes : List ScanNote} :
    manifest.scan = .found schema notes ↔
      ∃ d, manifest.holder? = some d ∧
        baseName? d.name manifest.scanner.suffix = some schema.name ∧
        schema.properties = d.properties ∧ notes = d.notes := by
  obtain ⟨name, properties⟩ := schema
  unfold Manifest.scan
  cases manifest.holder? with
  | none => simp
  | some d =>
    cases hb : baseName? d.name manifest.scanner.suffix with
    | none => simp [hb]
    | some base => simp [hb, eq_comm, and_assoc]

end

/-- A scan comes to nothing without a holder, to no name if the holder's does not end in the suffix
or is nothing else, and otherwise to the component that filing the holder's parameters leads to. -/
theorem scan_classifies (manifest : Manifest) :
    (manifest.scan = .noHolder ↔
      ∀ d ∈ manifest.declarations, ¬ d.Lists manifest.scanner.owner) ∧
    (∀ declaration suffix, manifest.scan = .underivableName declaration suffix ↔
      ∃ d, manifest.IsHolder d ∧
        (d.name = declaration ∧ manifest.scanner.suffix = suffix) ∧
        (¬ manifest.scanner.suffix.toList <:+ d.name.toList ∨ d.name = manifest.scanner.suffix)) ∧
    (∀ schema notes, manifest.scan = .found schema notes ↔
      ∃ d, manifest.IsHolder d ∧
        (d.name = schema.name ++ manifest.scanner.suffix ∧ schema.name ≠ "") ∧
        Classifies d.name d.parameters schema.properties notes ∧
        schema.properties.size + notes.countP ScanNote.isSkip = d.parameters.length) := by
  refine ⟨?_, ?_, ?_⟩
  · rw [scan_eq_noHolder, holder?_eq_none]
  · intro declaration suffix
    simp only [scan_eq_underivableName, holder?_eq_some, baseName?_eq_none]
  · intro schema notes
    simp only [scan_eq_found_iff, holder?_eq_some, baseName?_eq_some, ← classifies_iff]
    constructor
    · rintro ⟨d, hd, hn, hc⟩
      exact ⟨d, hd, hn, hc, hc.count⟩
    · rintro ⟨d, hd, hn, hc, _⟩
      exact ⟨d, hd, hn, hc⟩

end StyleFamily
