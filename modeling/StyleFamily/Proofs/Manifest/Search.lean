import Mathlib.Data.List.Infix
import StyleFamily.Manifest.Quotation

/-!
# The search for names

Positions in a text count bytes, but only those between characters are ever reached. The search for
a name comes to an occurrence of the name, and it fails only if there is none; a pattern is found
where it first stands.
-/
namespace StyleFamily.Quotation

@[simp] theorem byteLength_nil : byteLength [] = 0 := rfl

@[simp] theorem byteLength_cons (c : Char) (cs : List Char) :
    byteLength (c :: cs) = c.utf8Size + byteLength cs := rfl

@[simp] theorem byteLength_append (a b : List Char) :
    byteLength (a ++ b) = byteLength a + byteLength b := by
  induction a with
  | nil => simp
  | cons c a ih => rw [List.cons_append, byteLength_cons, byteLength_cons, ih, Nat.add_assoc]

@[simp] theorem byteLength_eq_zero {cs : List Char} : byteLength cs = 0 ↔ cs = [] := by
  cases cs with
  | nil => simp
  | cons c cs =>
    have hpos := c.utf8Size_pos
    simp only [byteLength_cons, reduceCtorEq, iff_false]
    omega

theorem byteLength_toList (text : String) : byteLength text.toList = text.utf8ByteSize := by
  have hchars : ∀ cs : List Char, byteLength cs = (String.ofList cs).utf8ByteSize := by
    intro cs
    induction cs with
    | nil => rfl
    | cons c cs ih =>
      rw [byteLength_cons, ih, ← List.singleton_append, String.ofList_append,
        String.utf8ByteSize_append]
      simp
  rw [hchars, String.ofList_toList]

/-- Of two fronts of a text the one with fewer bytes is the front of the other. -/
theorem eq_append_of_byteLength_le {a b c d : List Char} (h : a ++ b = c ++ d)
    (hle : byteLength a ≤ byteLength c) : ∃ middle, c = a ++ middle ∧ b = middle ++ d := by
  rcases List.append_eq_append_iff.mp h with ⟨middle, hc, hb⟩ | ⟨middle, ha, hd⟩
  · exact ⟨middle, hc, hb⟩
  · have hnone : middle = [] := by
      rw [← byteLength_eq_zero]
      rw [ha, byteLength_append] at hle
      omega
    exact ⟨[], by simp [ha, hnone], by simp [hd, hnone]⟩

theorem dropBytes_append (front rest : List Char) :
    dropBytes (byteLength front) (front ++ rest) = some rest := by
  induction front with
  | nil => cases rest <;> rfl
  | cons c front ih =>
    have hne : byteLength (c :: front) ≠ 0 := fun h =>
      List.cons_ne_nil _ _ (byteLength_eq_zero.mp h)
    obtain ⟨n, hn⟩ := Nat.exists_eq_succ_of_ne_zero hne
    have hsum : c.utf8Size + byteLength front = n + 1 := hn
    rw [hn, List.cons_append, dropBytes, if_pos (by omega), ← hsum, Nat.add_sub_cancel_left, ih]

theorem dropBytes_eq_some {n : Nat} {text rest : List Char} :
    dropBytes n text = some rest ↔ ∃ front, text = front ++ rest ∧ byteLength front = n := by
  constructor
  · intro h
    fun_induction dropBytes n text with
    | case1 text =>
      obtain rfl := Option.some.inj h
      exact ⟨[], rfl, rfl⟩
    | case2 => cases h
    | case3 n c more hle ih =>
      obtain ⟨front, rfl, hfront⟩ := ih h
      refine ⟨c :: front, rfl, ?_⟩
      rw [byteLength_cons, hfront]
      omega
    | case4 => cases h
  · rintro ⟨front, rfl, rfl⟩
    exact dropBytes_append front rest

/-- A text can be cut after some bytes exactly if they end between characters. -/
theorem dropBytes_ne_none {n : Nat} {text : String} :
    dropBytes n text.toList ≠ none ↔ (⟨n⟩ : String.Pos.Raw).IsValid text := by
  rw [String.Pos.Raw.isValid_iff_exists_append, ← Option.isSome_iff_ne_none,
    Option.isSome_iff_exists]
  constructor
  · rintro ⟨rest, h⟩
    obtain ⟨front, htext, rfl⟩ := dropBytes_eq_some.mp h
    refine ⟨String.ofList front, String.ofList rest, ?_, ?_⟩
    · rw [← String.ofList_append, ← htext, String.ofList_toList]
    · rw [String.rawEndPos, ← byteLength_toList, String.toList_ofList]
  · rintro ⟨front, rest, rfl, hn⟩
    refine ⟨rest.toList, dropBytes_eq_some.mpr ⟨front.toList, String.toList_append, ?_⟩⟩
    rw [byteLength_toList]
    exact (congrArg String.Pos.Raw.byteIdx hn).symm

/-- A part stands in a text after a number of bytes. -/
def StandsAt (part text : List Char) (offset : Nat) : Prop :=
  ∃ front back, text = front ++ part ++ back ∧ byteLength front = offset

theorem exists_standsAt {part text : List Char} :
    (∃ offset, StandsAt part text offset) ↔ part <:+: text := by
  constructor
  · rintro ⟨_, front, back, rfl, _⟩
    exact ⟨front, back, rfl⟩
  · rintro ⟨front, back, rfl⟩
    exact ⟨_, front, back, rfl, rfl⟩

theorem standsAt_cons {part rest : List Char} {c : Char} {offset : Nat} :
    StandsAt part (c :: rest) offset ↔ part <+: c :: rest ∧ offset = 0 ∨
      ∃ n, offset = c.utf8Size + n ∧ StandsAt part rest n := by
  constructor
  · rintro ⟨front, back, htext, rfl⟩
    cases front with
    | nil => exact .inl ⟨⟨back, htext.symm⟩, rfl⟩
    | cons d front =>
      obtain ⟨rfl, hrest⟩ := List.cons.inj htext
      exact .inr ⟨_, rfl, front, back, hrest, rfl⟩
  · rintro (⟨⟨back, htext⟩, rfl⟩ | ⟨_, rfl, front, back, rfl, rfl⟩)
    · exact ⟨[], back, htext.symm, rfl⟩
    · exact ⟨c :: front, back, rfl, rfl⟩

/-- What stands in the rest of a text stands in the text, further on by what was cut off. -/
theorem standsAt_rest (front : List Char) {part rest : List Char} {offset : Nat} :
    StandsAt part rest offset ↔ StandsAt part (front ++ rest) (byteLength front + offset) := by
  constructor
  · rintro ⟨more, back, rfl, rfl⟩
    exact ⟨front ++ more, back, by simp, byteLength_append _ _⟩
  · rintro ⟨more, back, htext, hlength⟩
    rw [List.append_assoc] at htext
    obtain ⟨middle, rfl, hrest⟩ := eq_append_of_byteLength_le htext (by omega)
    refine ⟨middle, back, by rw [hrest, List.append_assoc], ?_⟩
    rw [byteLength_append] at hlength
    omega

/-- The search for a pattern stops where the pattern first stands. -/
theorem find?_eq_some {pattern text : List Char} {n : Nat} (h : find? pattern text = some n) :
    StandsAt pattern text n ∧ ∀ m < n, ¬ StandsAt pattern text m := by
  induction text generalizing n with
  | nil =>
    rw [find?] at h
    split at h
    · next hp =>
      obtain rfl := Option.some.inj h
      exact ⟨⟨[], [], by rw [List.isEmpty_iff.mp hp]; rfl, rfl⟩, fun m hm => absurd hm (by omega)⟩
    · cases h
  | cons c rest ih =>
    rw [find?] at h
    split at h
    · next hp =>
      obtain rfl := Option.some.inj h
      have hfront := List.isPrefixOf_iff_prefix.mp hp
      exact ⟨standsAt_cons.mpr (.inl ⟨hfront, rfl⟩), fun m hm => absurd hm (by omega)⟩
    · next hp =>
      obtain ⟨k, hk, rfl⟩ := Option.map_eq_some_iff.mp h
      obtain ⟨hat, hfirst⟩ := ih hk
      refine ⟨standsAt_cons.mpr (.inr ⟨k, rfl, hat⟩), fun m hm hm' => ?_⟩
      rcases standsAt_cons.mp hm' with ⟨hbegins, _⟩ | ⟨j, rfl, hj⟩
      · exact hp (List.isPrefixOf_iff_prefix.mpr hbegins)
      · exact hfirst j (by omega) hj

theorem find?_eq_none {pattern text : List Char} :
    find? pattern text = none ↔ ¬ pattern <:+: text := by
  induction text with
  | nil => simp [find?]
  | cons c rest ih =>
    rw [find?, List.infix_cons_iff, not_or, ← ih, ← List.isPrefixOf_iff_prefix]
    by_cases hp : pattern.isPrefixOf (c :: rest) = true
    · simp [hp]
    · simp [hp]

/-- What stands between two other parts stands further on by the first of them. -/
theorem StandsAt.middle {opening part closing text : List Char} {offset : Nat}
    (h : StandsAt (opening ++ part ++ closing) text offset) :
    StandsAt part text (offset + byteLength opening) := by
  obtain ⟨front, back, rfl, rfl⟩ := h
  exact ⟨front ++ opening, closing ++ back, by simp, byteLength_append _ _⟩

theorem standsAt_of_findAfter? {opening : String} {name text : List Char} {n : Nat}
    (h : findAfter? opening name text = some n) : StandsAt name text n := by
  obtain ⟨m, hm, rfl⟩ := Option.map_eq_some_iff.mp h
  exact (find?_eq_some hm).1.middle

theorem standsAt_of_findName? {name text : List Char} {n : Nat}
    (h : findName? name text = some n) : StandsAt name text n := by
  simp only [findName?, Option.orElse_eq_orElse, Option.orElse_eq_or, Option.or_eq_some_iff] at h
  rcases h with h | ⟨_, h | ⟨_, h | ⟨_, h⟩⟩⟩
  · exact standsAt_of_findAfter? h
  · exact standsAt_of_findAfter? h
  · exact standsAt_of_findAfter? h
  · exact (find?_eq_some h).1

/-- A name is found exactly if it stands anywhere in the text. -/
theorem findName?_ne_none {name text : List Char} :
    findName? name text ≠ none ↔ name <:+: text := by
  constructor
  · intro h
    obtain ⟨n, hn⟩ := Option.ne_none_iff_exists'.mp h
    exact exists_standsAt.mp ⟨n, standsAt_of_findName? hn⟩
  · intro h hnone
    simp only [findName?, Option.orElse_eq_orElse, Option.orElse_eq_or, Option.or_eq_none_iff,
      find?_eq_none] at hnone
    exact hnone.2.2.2 h

theorem spanFrom?_eq_some {text : List Char} {name : String} {start : Nat} {span : Span} :
    spanFrom? text name start = some span ↔ ∃ front rest n, text = front ++ rest ∧
      byteLength front = start ∧ findName? name.toList rest = some n ∧
        span = ⟨start + n, byteLength name.toList⟩ := by
  rw [spanFrom?]
  simp only [Option.bind_eq_bind, Option.bind_eq_some_iff, dropBytes_eq_some, Option.pure_def,
    Option.some.injEq]
  constructor
  · rintro ⟨rest, ⟨front, htext, hfront⟩, n, hn, rfl⟩
    exact ⟨front, rest, n, htext, hfront, hn, rfl⟩
  · rintro ⟨front, rest, n, htext, hfront, hn, rfl⟩
    exact ⟨rest, ⟨front, htext, hfront⟩, n, hn, rfl⟩

/-- What is found from an offset on is an occurrence of the name, at that offset or after it. -/
theorem standsAt_of_spanFrom? {text : List Char} {name : String} {start : Nat} {span : Span}
    (h : spanFrom? text name start = some span) :
    StandsAt name.toList text span.offset ∧ span.length = byteLength name.toList ∧
      start ≤ span.offset := by
  obtain ⟨front, rest, n, rfl, rfl, hn, rfl⟩ := spanFrom?_eq_some.mp h
  exact ⟨(standsAt_rest _).mp (standsAt_of_findName? hn), rfl, Nat.le_add_right _ _⟩

theorem span?_ne_none {text : List Char} {name : String} :
    span? text name ≠ none ↔ name.toList <:+: text := by
  have hspan : span? text name =
      (findName? name.toList text).map fun n => ⟨0 + n, byteLength name.toList⟩ := by
    rw [span?, spanFrom?, dropBytes, Option.bind_eq_bind, Option.bind_some]
    cases findName? name.toList text <;> rfl
  rw [← findName?_ne_none, hspan, ne_eq, Option.map_eq_none_iff]

end StyleFamily.Quotation
