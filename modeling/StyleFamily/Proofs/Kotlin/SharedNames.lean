import StyleFamily.Proofs.Kotlin.NameClash

/-!
# Declared names, and those of two components

A declared name is the component's name between a front and an ending, so it is an identifier and no
reserved word. No ending is the end of another one, and two families share a name only where what
stands before the ending is the same: when one component is called like the other with a front
before it.
-/
namespace StyleFamily
namespace Kotlin

/-- What a declared name puts before the component's name and after it. -/
def nameFrames : List (String × String) :=
  [("Local", "Style"), ("", "Style"), ("", "StyleBuilder"), ("Default", "Style"), ("", "Colors"),
    ("", "ColorsBuilder"), ("Default", "Colors"), ("", "Dimensions"), ("", "DimensionsBuilder"),
    ("Default", "Dimensions")]

theorem declaredNames_eq (schema : Schema) :
    declaredNames (assemble schema) =
      nameFrames.map fun (front, ending) => front ++ schema.name ++ ending := by
  have hnames : declaredNames (assemble schema) = (StyleNames.ofBase schema.name).accessor ::
      (StyleNames.ofBase schema.name).declarations := rfl
  rw [hnames]
  simp only [StyleNames.ofBase, StyleNames.declarations, nameFrames, List.map_cons, List.map_nil,
    String.empty_append]

theorem mem_declaredNames {schema : Schema} {name : String} :
    name ∈ declaredNames (assemble schema) ↔
      ∃ front ending, (front, ending) ∈ nameFrames ∧ name = front ++ schema.name ++ ending := by
  rw [declaredNames_eq, List.mem_map]
  constructor
  · rintro ⟨⟨front, ending⟩, hf, rfl⟩
    exact ⟨front, ending, hf, rfl⟩
  · rintro ⟨front, ending, hf, rfl⟩
    exact ⟨(front, ending), hf, rfl⟩

theorem isIdentifier_declared {schema : Schema} (hw : schema.WellNamed) {name : String}
    (h : name ∈ declaredNames (assemble schema)) : isIdentifier name = true := by
  have hframes : ∀ frame ∈ nameFrames, (frame.1 = "" ∨ isIdentifier frame.1 = true) ∧
      frame.2.toList.all isNamePart = true := by decide
  obtain ⟨front, ending, hf, rfl⟩ := mem_declaredNames.mp h
  obtain ⟨hfront, hending⟩ := hframes (front, ending) hf
  refine isIdentifier_append ?_ hending
  rcases hfront with hempty | hfront
  · rw [show front = "" from hempty, String.empty_append]
    exact hw.component
  · exact isIdentifier_append_name hfront hw.component

/-- No reserved word has the ending of a declared name. -/
theorem declared_unreserved {schema : Schema} {name : String}
    (h : name ∈ declaredNames (assemble schema)) : naming.isReserved name = false := by
  have hendings : ∀ frame ∈ nameFrames, ∀ word ∈ naming.reserved,
      ¬frame.2.toList <:+ word.toList := by decide
  obtain ⟨front, ending, hf, rfl⟩ := mem_declaredNames.mp h
  exact unreserved_append _ (hendings (front, ending) hf)

/-- A group of the component's family: its names are declared, its flat members are properties and
its delegates are built by the family. -/
structure Related (schema : Schema) (group : PropertyGroup) : Prop where
  result : group.result ∈ declaredNames (assemble schema)
  builder : group.builder ∈ declaredNames (assemble schema)
  defaultImpl : group.defaultImpl ∈ declaredNames (assemble schema)
  flat : ∀ p, .flat p ∈ group.members → p ∈ schema.occurrences
  delegate : ∀ d, .delegate d ∈ group.members →
    d.member ∈ [MemberName.colors, MemberName.dimensions] ∧
      d.contract ∈ declaredNames (assemble schema) ∧ d.builder ∈ declaredNames (assemble schema)

theorem related_of_mem {schema : Schema} {group : PropertyGroup}
    (hg : group ∈ [styleGroup schema, colorsGroup schema, dimensionsGroup schema]) :
    Related schema group := by
  have hdeclared : ∀ name ∈ (StyleNames.ofBase schema.name).declarations,
      name ∈ declaredNames (assemble schema) := fun _ hn => List.mem_cons_of_mem _ hn
  simp only [StyleNames.declarations, List.forall_mem_cons] at hdeclared
  obtain ⟨hs, hsb, hds, hc, hcb, hdc, hd, hdb, hdd, _⟩ := hdeclared
  have hnames : group.result ∈ declaredNames (assemble schema) ∧
      group.builder ∈ declaredNames (assemble schema) ∧
      group.defaultImpl ∈ declaredNames (assemble schema) := by
    simp only [List.mem_cons, List.not_mem_nil, or_false] at hg
    rcases hg with rfl | rfl | rfl
    · exact ⟨hs, hsb, hds⟩
    · exact ⟨hc, hcb, hdc⟩
    · exact ⟨hd, hdb, hdd⟩
  refine ⟨hnames.1, hnames.2.1, hnames.2.2, fun p hp => flat_mem_occurrences hg hp, fun d hm => ?_⟩
  rcases delegate_cases hg hm with rfl | rfl
  · exact ⟨List.mem_cons_self, hc, hcb⟩
  · exact ⟨List.mem_cons_of_mem _ List.mem_cons_self, hd, hdb⟩

/-- The endings are a suffix code. -/
theorem ending_unique {a b : String × String} (ha : a ∈ nameFrames) (hb : b ∈ nameFrames)
    {x y : String} (h : x ++ a.2 = y ++ b.2) : a.2 = b.2 := by
  have hcode : ∀ a ∈ nameFrames, ∀ b ∈ nameFrames, a.2.toList <:+ b.2.toList → a.2 = b.2 := by
    decide
  have hsuffix : a.2.toList <:+ (y ++ b.2).toList := by
    rw [← h, String.toList_append]
    exact List.suffix_append _ _
  rw [String.toList_append] at hsuffix
  rcases List.suffix_or_suffix_of_suffix hsuffix (List.suffix_append _ _) with hab | hba
  · exact hcode a ha b hb hab
  · exact (hcode b hb a ha hba).symm

/-- Names behind different fronts agree only if one of them brings the other's front along. -/
theorem front_cases {a b : String × String} (ha : a ∈ nameFrames) (hb : b ∈ nameFrames)
    {x y : String} (h : a.1 ++ x = b.1 ++ y) :
    x = y ∨ ∃ front ∈ ["Default", "Local"], x = front ++ y ∨ y = front ++ x := by
  have hfronts : ∀ a ∈ nameFrames, a.1 = "" ∨ a.1 ∈ ["Default", "Local"] := by decide
  have hsame : ∀ front : String, front ++ x = front ++ y → x = y := by
    intro front he
    rw [← String.toList_inj, String.toList_append, String.toList_append] at he
    exact String.toList_inj.mp (List.append_cancel_left he)
  rcases hfronts a ha with hempty | hfront
  · rw [hempty, String.empty_append] at h
    rcases hfronts b hb with hempty' | hfront'
    · rw [hempty', String.empty_append] at h
      exact .inl h
    · exact .inr ⟨b.1, hfront', .inl h⟩
  · rcases hfronts b hb with hempty' | hfront'
    · rw [hempty', String.empty_append] at h
      exact .inr ⟨a.1, hfront, .inr h.symm⟩
    · have hhead := congrArg (fun s : String => s.toList.head?) h
      simp only [List.mem_cons, List.not_mem_nil, or_false] at hfront hfront'
      rcases hfront with ha | ha <;> rcases hfront' with hb | hb
      · exact .inl (hsame "Default" (by rwa [ha, hb] at h))
      · simp [ha, hb] at hhead
      · simp [ha, hb] at hhead
      · exact .inl (hsame "Local" (by rwa [ha, hb] at h))

/-- A component called like another one with a front before it declares its style once more. -/
theorem shared_of_front {s t : Schema} {front : String} (hf : front ∈ ["Default", "Local"])
    (h : s.name = front ++ t.name) :
    ∃ name ∈ declaredNames (assemble s), name ∈ declaredNames (assemble t) := by
  have hframes : ∀ front ∈ ["Default", "Local"], (front, "Style") ∈ nameFrames := by decide
  refine ⟨front ++ t.name ++ "Style", mem_declaredNames.mpr ⟨"", "Style", by decide, ?_⟩,
    mem_declaredNames.mpr ⟨front, "Style", hframes front hf, rfl⟩⟩
  rw [h, String.empty_append]

/-- Two components declare no name in common, unless one is called like the other with `Default` or
`Local` before it. -/
theorem declared_disjoint_iff {s t : Schema} (h : s.name ≠ t.name) :
    (∀ name ∈ declaredNames (assemble s), name ∉ declaredNames (assemble t)) ↔
      ∀ front ∈ ["Default", "Local"], s.name ≠ front ++ t.name ∧ t.name ≠ front ++ s.name := by
  constructor
  · intro hd front hf
    refine ⟨fun he => ?_, fun he => ?_⟩
    · obtain ⟨name, hs, ht⟩ := shared_of_front hf he
      exact hd name hs ht
    · obtain ⟨name, ht, hs⟩ := shared_of_front hf he
      exact hd name hs ht
  · intro hne name hs ht
    obtain ⟨front, ending, hf, rfl⟩ := mem_declaredNames.mp hs
    obtain ⟨front', ending', hf', he⟩ := mem_declaredNames.mp ht
    obtain rfl : ending = ending' := ending_unique hf hf' he
    rw [← String.toList_inj, String.toList_append, @String.toList_append (front' ++ t.name)] at he
    have hbefore := String.toList_inj.mp (List.append_cancel_right he)
    rcases front_cases hf hf' hbefore with hn | ⟨other, ho, hn | hn⟩
    · exact h hn
    · exact (hne other ho).1 hn
    · exact (hne other ho).2 hn

/-- Names made of the very words that stand around them. -/
theorem style_declared_disjoint :
    "StyleDefault" ≠ "DefaultStyleBuilder" ∧
      ∀ name ∈ declaredNames (assemble ⟨"StyleDefault", {}⟩),
        name ∉ declaredNames (assemble ⟨"DefaultStyleBuilder", {}⟩) := by
  have h : (⟨"StyleDefault", {}⟩ : Schema).name ≠ (⟨"DefaultStyleBuilder", {}⟩ : Schema).name := by
    decide
  exact ⟨h, (declared_disjoint_iff h).mpr (by decide)⟩

/-- Two components with usable names, each of which declares `DefaultChipStyle`. -/
theorem chip_names_shared :
    Diagnostic.errorCount (Lint.componentName.check ⟨"Chip", {}⟩) = 0 ∧
      Diagnostic.errorCount (Lint.componentName.check ⟨"DefaultChip", {}⟩) = 0 ∧
      "Chip" ≠ "DefaultChip" ∧
      "DefaultChipStyle" ∈ declaredNames (assemble ⟨"Chip", {}⟩) ∧
      "DefaultChipStyle" ∈ declaredNames (assemble ⟨"DefaultChip", {}⟩) := by
  decide +kernel

end Kotlin
end StyleFamily
