import Mathlib.Data.List.Infix
import StyleFamily.Text

/-!
# Cutting texts

A text stands in another one if it is one of its infixes, and it is cut in two where a separator
first stands in it. Reading back what was put together around a separator needs no more than its
first character to be absent in front.
-/
namespace StyleFamily.Text

theorem occursIn_iff {part text : List Char} : occursIn part text = true ↔ part <:+: text := by
  induction text with
  | nil => simp [occursIn]
  | cons c rest ih => rw [occursIn, Bool.or_eq_true, List.isPrefixOf_iff_prefix, ih,
      List.infix_cons_iff]

/-- The characters before the first occurrence of a separator, and those after it. -/
def cutChars? (separator : List Char) : List Char → Option (List Char × List Char)
  | [] => none
  | c :: rest =>
    if separator.isPrefixOf (c :: rest) then some ([], (c :: rest).drop separator.length)
    else (cutChars? separator rest).map fun (before, after) => (c :: before, after)

/-- What stands before the first occurrence of a separator, and what stands after it. -/
def cut? (separator text : String) : Option (String × String) :=
  (cutChars? separator.toList text.toList).map fun (before, after) =>
    (String.ofList before, String.ofList after)

theorem cutChars?_append {mark : Char} {before : List Char} (h : mark ∉ before)
    (more after : List Char) :
    cutChars? (mark :: more) (before ++ (mark :: more) ++ after) = some (before, after) := by
  induction before with
  | nil =>
    rw [List.nil_append, List.cons_append, cutChars?, if_pos]
    · simp
    · simp
  | cons c before ih =>
    obtain ⟨hc, hrest⟩ := List.ne_and_not_mem_of_not_mem_cons h
    rw [List.cons_append, List.cons_append, cutChars?, if_neg, ih hrest]
    · rfl
    · simp [hc]

theorem cutChars?_eq_none {separator text : List Char} {c : Char} (hs : c ∈ separator)
    (h : c ∉ text) : cutChars? separator text = none := by
  induction text with
  | nil => rfl
  | cons first rest ih =>
    have hprefix : separator.isPrefixOf (first :: rest) ≠ true :=
      fun hp => h ((List.isPrefixOf_iff_prefix.mp hp).subset hs)
    rw [cutChars?, if_neg hprefix, ih (List.not_mem_of_not_mem_cons h)]
    rfl

/-- What stands after a separator stands in the text. -/
theorem mem_of_cutChars? {separator text before after : List Char}
    (h : cutChars? separator text = some (before, after)) {c : Char} (hc : c ∈ after) :
    c ∈ text := by
  induction text generalizing before with
  | nil => exact absurd h (by simp [cutChars?])
  | cons first rest ih =>
    rw [cutChars?] at h
    split at h
    · obtain ⟨rfl, rfl⟩ := Prod.mk.inj (Option.some.inj h)
      exact List.mem_of_mem_drop hc
    · obtain ⟨⟨front, back⟩, hrest, he⟩ := Option.map_eq_some_iff.mp h
      obtain ⟨rfl, rfl⟩ := Prod.mk.inj he
      exact List.mem_cons_of_mem _ (ih hrest)

theorem cut?_append {separator before : String} {mark : Char} {more : List Char}
    (hs : separator.toList = mark :: more) (h : mark ∉ before.toList) (after : String) :
    cut? separator (before ++ separator ++ after) = some (before, after) := by
  rw [cut?, String.toList_append, String.toList_append, hs, cutChars?_append h]
  simp

theorem cut?_eq_none {separator text : String} {c : Char} (hs : c ∈ separator.toList)
    (h : c ∉ text.toList) : cut? separator text = none := by
  rw [cut?, cutChars?_eq_none hs h]
  rfl

theorem mem_of_cut? {separator text before after : String}
    (h : cut? separator text = some (before, after)) {c : Char} (hc : c ∈ after.toList) :
    c ∈ text.toList := by
  obtain ⟨⟨front, back⟩, hcut, he⟩ := Option.map_eq_some_iff.mp h
  obtain ⟨rfl, rfl⟩ := Prod.mk.inj he
  exact mem_of_cutChars? hcut (by simpa using hc)

theorem withoutSuffix?_append (text suffix : String) :
    withoutSuffix? (text ++ suffix) suffix = some text := by
  rw [withoutSuffix?, String.toList_append, if_pos]
  · simp
  · simp

theorem withoutSuffix?_eq_some {text suffix base : String} :
    withoutSuffix? text suffix = some base ↔ text = base ++ suffix := by
  constructor
  · intro h
    unfold withoutSuffix? at h
    split at h
    · next hs =>
      obtain rfl := Option.some.inj h
      rw [List.isSuffixOf_iff_suffix, List.suffix_iff_eq_append] at hs
      rw [← String.toList_inj, String.toList_append, String.toList_ofList, hs]
    · simp at h
  · rintro rfl
    exact withoutSuffix?_append base suffix

end StyleFamily.Text
