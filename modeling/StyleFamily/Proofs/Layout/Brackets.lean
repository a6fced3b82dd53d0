import StyleFamily.Proofs.Text.Characters

/-!
# Brackets

Parentheses and braces are read one after another; what was opened last has to be closed first. A
text whose brackets are balanced leaves whatever was open before it as it is.
-/
namespace StyleFamily
namespace Text

/-- What is still to be closed after some characters, the innermost first: nothing can be said if
they close what was not opened last. -/
def pending : List Char → List Char → Option (List Char)
  | due, [] => some due
  | due, c :: rest =>
    if c = '(' then pending (')' :: due) rest
    else if c = '{' then pending ('}' :: due) rest
    else if c = ')' ∨ c = '}' then
      if due.head? = some c then pending due.tail rest else none
    else pending due rest

/-- Every bracket is closed, and in its turn. -/
def Balanced (chars : List Char) : Prop := pending [] chars = some []

instance (chars : List Char) : Decidable (Balanced chars) :=
  inferInstanceAs (Decidable (pending [] chars = some []))

example : Balanced "class A(val b: () -> C) \x7b \x7d".toList ∧ ¬Balanced "(\x7b)\x7d".toList := by
  decide

theorem pending_append (due front rest : List Char) :
    pending due (front ++ rest) = (pending due front).bind fun due => pending due rest := by
  induction front generalizing due with
  | nil => rfl
  | cons c front ih =>
    rw [List.cons_append, pending, pending]
    split_ifs <;> first | exact ih _ | rfl

/-- What was open before plays no part. -/
theorem pending_base {due left chars : List Char} (h : pending due chars = some left)
    (base : List Char) : pending (due ++ base) chars = some (left ++ base) := by
  induction chars generalizing due with
  | nil =>
    obtain rfl : due = left := Option.some.inj h
    rfl
  | cons c rest ih =>
    rw [pending] at h ⊢
    split_ifs at h with hround hcurly hclosing hdue
    · rw [if_pos hround]
      exact ih h
    · rw [if_neg hround, if_pos hcurly]
      exact ih h
    · obtain ⟨more, rfl⟩ := List.head?_eq_some_iff.mp hdue
      rw [if_neg hround, if_neg hcurly, if_pos hclosing]
      exact (if_pos rfl).trans (ih h)
    · rw [if_neg hround, if_neg hcurly, if_neg hclosing]
      exact ih h

/-- Braces are counted as they are opened and closed. -/
theorem count_pending {due left chars : List Char} (h : pending due chars = some left) :
    left.count '}' + chars.count '}' = due.count '}' + chars.count '{' := by
  induction chars generalizing due with
  | nil =>
    obtain rfl : due = left := Option.some.inj h
    rfl
  | cons c rest ih =>
    rw [pending] at h
    split_ifs at h with hround hcurly hclosing hdue
    · have hrest := ih h
      simp [hround] at hrest ⊢
      omega
    · have hrest := ih h
      simp [hcurly] at hrest ⊢
      omega
    · obtain ⟨more, rfl⟩ := List.head?_eq_some_iff.mp hdue
      have hrest := ih h
      rcases hclosing with rfl | rfl <;> simp at hrest ⊢ <;> omega
    · have hrest := ih h
      have hc : c ≠ '}' := fun he => hclosing (.inr he)
      simp [hcurly, hc] at hrest ⊢
      omega

namespace Balanced
variable {front rest chars : List Char}

theorem pending_eq (h : Balanced chars) (due : List Char) : pending due chars = some due :=
  pending_base h due

theorem append (hf : Balanced front) (hr : Balanced rest) : Balanced (front ++ rest) := by
  rw [Balanced, pending_append, hf, Option.bind_some, hr]

/-- Without brackets there is nothing to close. -/
theorem of_notMem (h : ∀ c ∈ chars, c ∉ ['(', ')', '{', '}']) : Balanced chars := by
  induction chars with
  | nil => rfl
  | cons c rest ih =>
    obtain ⟨hc, hrest⟩ := List.forall_mem_cons.mp h
    simp only [List.mem_cons, List.not_mem_nil, or_false, not_or] at hc
    obtain ⟨hround, hroundEnd, hcurly, hcurlyEnd⟩ := hc
    rw [Balanced, pending, if_neg hround, if_neg hcurly, if_neg (not_or.mpr ⟨hroundEnd, hcurlyEnd⟩)]
    exact ih hrest

end Balanced

/-- A text that can stand anywhere in a line: it leaves the line and its brackets as they are. -/
def Inert (text : String) : Prop := Unbroken text ∧ Balanced text.toList

instance (text : String) : Decidable (Inert text) :=
  inferInstanceAs (Decidable (Unbroken text ∧ Balanced text.toList))

/-- A text that begins with something to see. -/
def Starts (text : String) : Prop := text.toList.head?.all isBlank = false

/-- A text that ends with something to see. -/
def Ends (text : String) : Prop := text.toList.getLast?.all isBlank = false

instance (text : String) : Decidable (Starts text) := inferInstanceAs (Decidable (_ = false))

instance (text : String) : Decidable (Ends text) := inferInstanceAs (Decidable (_ = false))

/-- A text that can be a line, or the first, the last or an inner part of one. -/
def Phrase (text : String) : Prop := Inert text ∧ Starts text ∧ Ends text

instance (text : String) : Decidable (Phrase text) :=
  inferInstanceAs (Decidable (Inert text ∧ Starts text ∧ Ends text))

theorem Inert.append {front back : String} (hf : Inert front) (hb : Inert back) :
    Inert (front ++ back) := by
  refine ⟨unbroken_append.mpr ⟨hf.1, hb.1⟩, ?_⟩
  rw [String.toList_append]
  exact hf.2.append hb.2

/-- Two texts that are balanced together are balanced around a third. -/
theorem Inert.insert {front middle back : String} (h : Inert (front ++ back)) (hm : Inert middle) :
    Inert (front ++ middle ++ back) := by
  obtain ⟨hf, hb⟩ := unbroken_append.mp h.1
  refine ⟨unbroken_append.mpr ⟨unbroken_append.mpr ⟨hf, hm.1⟩, hb⟩, ?_⟩
  have hbalanced := h.2
  rw [Balanced, String.toList_append, pending_append, Option.bind_eq_some_iff] at hbalanced
  obtain ⟨due, hfront, hback⟩ := hbalanced
  rw [Balanced, String.toList_append, String.toList_append, pending_append, pending_append, hfront,
    Option.bind_some, hm.2.pending_eq, Option.bind_some, hback]

theorem starts_iff {text : String} :
    Starts text ↔ ∃ c rest, text.toList = c :: rest ∧ isBlank c = false := by
  rw [Starts]
  rcases text.toList with _ | ⟨c, rest⟩ <;> simp

theorem ends_iff {text : String} :
    Ends text ↔ ∃ front c, text.toList = front ++ [c] ∧ isBlank c = false := by
  constructor
  · intro h
    rw [Ends] at h
    rcases hl : text.toList.getLast? with _ | c
    · simp [hl] at h
    · obtain ⟨front, ht⟩ := List.getLast?_eq_some_iff.mp hl
      exact ⟨front, c, ht, by simpa [hl] using h⟩
  · rintro ⟨front, c, ht, hc⟩
    simp [Ends, ht, hc]

theorem Starts.append {front : String} (h : Starts front) (back : String) :
    Starts (front ++ back) := by
  obtain ⟨c, rest, ht, hc⟩ := starts_iff.mp h
  exact starts_iff.mpr ⟨c, rest ++ back.toList, by rw [String.toList_append, ht]; rfl, hc⟩

theorem Ends.prepend {back : String} (h : Ends back) (front : String) : Ends (front ++ back) := by
  obtain ⟨rest, c, ht, hc⟩ := ends_iff.mp h
  exact ends_iff.mpr ⟨front.toList ++ rest, c, by rw [String.toList_append, ht, List.append_assoc],
    hc⟩

namespace Phrase
variable {front middle back : String}

/-- A fixed text that begins a line stands before a phrase. -/
theorem after (hf : Inert front ∧ Starts front) (hb : Phrase back) : Phrase (front ++ back) :=
  ⟨hf.1.append hb.1, hf.2.append back, hb.2.2.prepend front⟩

theorem before (hf : Phrase front) (hb : Inert back ∧ Ends back) : Phrase (front ++ back) :=
  ⟨hf.1.append hb.1, hf.2.1.append back, hb.2.prepend front⟩

theorem around (hf : Phrase front) (hm : Inert middle) (hb : Phrase back) :
    Phrase (front ++ middle ++ back) :=
  ⟨(hf.1.append hm).append hb.1, (hf.2.1.append middle).append back, hb.2.2.prepend _⟩

theorem enclosed (h : Inert (front ++ back) ∧ Starts front ∧ Ends back) (hm : Inert middle) :
    Phrase (front ++ middle ++ back) :=
  ⟨h.1.insert hm, (h.2.1.append middle).append back, h.2.2.prepend _⟩

end Phrase

/-- A word is a phrase, as long as it holds no brackets. -/
theorem phrase_of_chars {text : String} (hne : text ≠ "")
    (h : ∀ c ∈ text.toList, isBlank c = false ∧ c ∉ ['(', ')', '{', '}']) : Phrase text := by
  have hlist : text.toList ≠ [] := fun he => hne (String.toList_eq_nil_iff.mp he)
  have hunbroken : Unbroken text :=
    ⟨fun hm => absurd (h _ hm).1 (by decide), fun hm => absurd (h _ hm).1 (by decide)⟩
  refine ⟨⟨hunbroken, Balanced.of_notMem fun c hc => (h c hc).2⟩, starts_iff.mpr ?_,
    ends_iff.mpr ?_⟩
  · obtain ⟨c, rest, ht⟩ := List.exists_cons_of_ne_nil hlist
    exact ⟨c, rest, ht, (h c (ht ▸ List.mem_cons_self)).1⟩
  · refine ⟨text.toList.dropLast, text.toList.getLast hlist, ?_, (h _ (List.getLast_mem hlist)).1⟩
    exact (List.dropLast_append_getLast hlist).symm

/-- Letters, digits and the underscore stand between the first digit and the last letter. -/
theorem range_of_isNamePart {c : Char} (h : isNamePart c = true) :
    48 ≤ c.toNat ∧ c.toNat ≤ 122 := by
  have hval : c.toNat = c.val.toNat := rfl
  have hkinds : ((decide ('A'.val ≤ c.val ∧ c.val ≤ 'Z'.val) ||
      (decide ('a'.val ≤ c.val) && decide (c.val ≤ 'z'.val))) ||
      (decide ('0'.val ≤ c.val) && decide (c.val ≤ '9'.val)) || c == '_') = true := h
  simp only [Bool.or_eq_true, Bool.and_eq_true, decide_eq_true_eq, beq_iff_eq,
    UInt32.le_iff_toNat_le, Char.reduceVal, UInt32.reduceToNat] at hkinds
  rcases hkinds with ((hupper | hlower) | hdigit) | rfl
  · omega
  · omega
  · omega
  · decide

/-- What names are spelled with can be seen and is no bracket. -/
theorem visible_of_isNamePart {c : Char} (h : isNamePart c = true) :
    isBlank c = false ∧ c ∉ ['(', ')', '{', '}'] := by
  constructor
  · have hrange := range_of_isNamePart h
    simp only [isBlank, Bool.or_eq_false_iff, Bool.and_eq_false_iff, decide_eq_false_iff_not,
      beq_eq_false_iff_ne]
    omega
  · intro hm
    simp only [List.mem_cons, List.not_mem_nil, or_false] at hm
    rcases hm with rfl | rfl | rfl | rfl <;> exact absurd h (by decide)

theorem phrase_of_isIdentifier {name : String} (h : isIdentifier name = true) : Phrase name := by
  refine phrase_of_chars ?_ fun c hc => visible_of_isNamePart (isNamePart_of_mem h hc)
  rintro rfl
  exact absurd h (by decide)

end Text

theorem Kotlin.phrase_safe {name : String} (h : isIdentifier name = true) :
    Text.Phrase (safe name) := by
  refine Text.phrase_of_chars ?_ fun c hc => ?_
  · obtain ⟨c, rest, hc⟩ := exists_cons_safe h
    intro he
    rw [he] at hc
    exact absurd hc (by simp)
  · rcases mem_safe hc with hn | hq
    · exact Text.visible_of_isNamePart (isNamePart_of_mem h hn)
    · have hquote : naming.opening.toList.all
          (fun c => !Text.isBlank c && decide (c ∉ ['(', ')', '{', '}'])) = true := by decide
      simpa using List.all_eq_true.mp hquote c hq

/-- A valid package is a phrase. -/
theorem phrase_of_package {package : String} (h : packageFault? package = none) :
    Text.Phrase package := by
  refine Text.phrase_of_chars (inline_of_package h).1 fun c hc => ?_
  rcases @mem_pieces '.' _ _ hc with rfl | ⟨piece, hp, hm⟩
  · decide
  · refine Text.visible_of_isNamePart
      (isNamePart_of_mem (isIdentifier_of_package h _ (List.mem_map_of_mem hp)) ?_)
    rwa [String.toList_ofList]

end StyleFamily
