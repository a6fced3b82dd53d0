import Mathlib.Data.List.Basic
import StyleFamily.Text

/-!
# Lines that begin plainly

Lines that are empty or begin with an ASCII character. The lines of a text are made of its
characters, so those of an ASCII text all begin so.
-/
namespace StyleFamily

/-- A line that is empty or begins with an ASCII character. -/
def Text.BeginsPlain (line : String) : Prop := line.toList.head?.all (·.toNat < 128) = true

instance (line : String) : Decidable (Text.BeginsPlain line) :=
  inferInstanceAs (Decidable (_ = true))

theorem beginsPlain_iff {line : String} :
    Text.BeginsPlain line ↔ ∀ c ∈ line.toList.head?, c.toNat < 128 := by
  simp [Text.BeginsPlain, Option.all_eq_true]

/-- A text of ASCII characters. -/
def Text.IsAscii (text : String) : Prop := text.toList.all (·.toNat < 128) = true

instance (text : String) : Decidable (Text.IsAscii text) :=
  inferInstanceAs (Decidable (_ = true))

theorem isAscii_append {a b : String} :
    Text.IsAscii (a ++ b) ↔ Text.IsAscii a ∧ Text.IsAscii b := by
  rw [Text.IsAscii, String.toList_append, List.all_append, Bool.and_eq_true]
  rfl

/-- Lines are made of the characters of their text. -/
theorem mem_of_mem_linesFrom {line read chars : List Char} (h : line ∈ Text.linesFrom read chars) :
    ∀ c ∈ line, c ∈ read ∨ c ∈ chars := by
  have hclose : ∀ {read : List Char} {c}, c ∈ Text.closeLine read → c ∈ read := by
    intro read c hc
    unfold Text.closeLine at hc
    split at hc <;> simp_all
  induction chars generalizing read with
  | nil =>
    unfold Text.linesFrom at h
    split at h <;> simp_all
  | cons first rest ih =>
    by_cases hbreak : first = '\n'
    · rw [hbreak, Text.linesFrom, List.mem_cons] at h
      rcases h with rfl | h
      · exact fun c hc => .inl (hclose hc)
      · exact fun c hc => .inr (List.mem_cons_of_mem _ ((ih h c hc).resolve_left List.not_mem_nil))
    · have hline : line ∈ Text.linesFrom (first :: read) rest := by
        rwa [Text.linesFrom] at h
        exact hbreak
      intro c hc
      rcases ih hline c hc with hr | hr
      · rcases List.mem_cons.mp hr with rfl | hr
        · exact .inr List.mem_cons_self
        · exact .inl hr
      · exact .inr (List.mem_cons_of_mem _ hr)

/-- The lines of an ASCII text begin plainly. -/
theorem beginsPlain_of_isAscii {text : String} (h : Text.IsAscii text) :
    ∀ line ∈ Text.lines text, Text.BeginsPlain line := by
  intro line hl
  obtain ⟨chars, hchars, rfl⟩ := List.mem_map.mp hl
  refine beginsPlain_iff.mpr fun c hc => ?_
  rw [String.toList_ofList] at hc
  have hmem := (mem_of_mem_linesFrom hchars c (List.mem_of_mem_head? hc)).resolve_left
    List.not_mem_nil
  exact of_decide_eq_true (List.all_eq_true.mp h c hmem)

/-- What goes on after a plain beginning may be anything. -/
theorem beginsPlain_after {front : String} (h : front.toList.head?.any (·.toNat < 128) = true)
    (rest : String) : Text.BeginsPlain (front ++ rest) := by
  obtain ⟨c, hc, hplain⟩ := (Option.any_eq_true _ _).mp h
  obtain ⟨more, hmore⟩ := List.head?_eq_some_iff.mp hc
  rw [Text.BeginsPlain, String.toList_append, hmore]
  exact hplain

end StyleFamily
