import Mathlib.Data.List.Basic
import StyleFamily.Text

/-!
# Pieces of texts

The pieces of a text between the occurrences of a separator. Put together around the separator they
are the text again, and a text that was put together of pieces without the separator is taken apart
into these.
-/
namespace StyleFamily

/-- An ending without a separator belongs to the last piece. -/
theorem pieces_append {separator : Char} {ending : List Char} (h : separator ∉ ending)
    (text : List Char) : ∃ init last, Text.pieces separator text = init ++ [last] ∧
      Text.pieces separator (text ++ ending) = init ++ [last ++ ending] := by
  induction text with
  | nil =>
    refine ⟨[], [], rfl, ?_⟩
    induction ending with
    | nil => rfl
    | cons c rest ih =>
      obtain ⟨hc, hr⟩ := List.ne_and_not_mem_of_not_mem_cons h
      have hrest : Text.pieces separator rest = [rest] := by simpa using ih hr
      simp [Text.pieces, Ne.symm hc, hrest]
  | cons c rest ih =>
    obtain ⟨init, last, hp, ha⟩ := ih
    by_cases hc : c = separator
    · exact ⟨[] :: init, last, by simp [Text.pieces, hc, hp], by simp [Text.pieces, hc, ha]⟩
    · cases init with
      | nil => exact ⟨[], c :: last, by simp [Text.pieces, hc, hp], by simp [Text.pieces, hc, ha]⟩
      | cons first more =>
        exact ⟨(c :: first) :: more, last, by simp [Text.pieces, hc, hp],
          by simp [Text.pieces, hc, ha]⟩

theorem pieces_eq_splitOn (separator : Char) (text : List Char) :
    Text.pieces separator text = text.splitOn separator := by
  induction text with
  | nil => rfl
  | cons c rest ih =>
    rw [Text.pieces, List.splitOn, List.splitOnP_cons_eq_if_modifyHead, ih, List.splitOn]
    by_cases hc : c = separator
    · simp [hc]
    · rw [if_neg hc, if_neg (by simpa using hc)]
      rcases hs : List.splitOnP (· == separator) rest with _ | ⟨piece, more⟩
      · exact absurd hs (List.splitOnP_ne_nil _ _)
      · rfl

theorem pieces_append_separator (separator : Char) (front rest : List Char) :
    Text.pieces separator (front ++ separator :: rest) =
      Text.pieces separator front ++ Text.pieces separator rest := by
  simp only [pieces_eq_splitOn, List.splitOn]
  exact List.splitOnP_append_cons front rest (beq_self_eq_true separator)

theorem pieces_of_notMem {separator : Char} {text : List Char} (h : separator ∉ text) :
    Text.pieces separator text = [text] := by
  obtain ⟨init, last, hnil, happ⟩ := pieces_append h []
  have hsingle : init ++ [last] = [[]] := hnil.symm
  rcases init with _ | ⟨first, more⟩
  · obtain rfl : last = [] := by simpa using hsingle
    simpa using happ
  · simp at hsingle

theorem exists_pieces (separator : Char) (text : List Char) :
    ∃ init last, Text.pieces separator text = init ++ [last] := by
  obtain ⟨init, last, hp, _⟩ := pieces_append (List.not_mem_nil (a := separator)) text
  exact ⟨init, last, hp⟩

theorem exists_pieces_cons (separator : Char) (text : List Char) :
    ∃ first more, Text.pieces separator text = first :: more := by
  obtain ⟨init, last, hp⟩ := exists_pieces separator text
  rcases init with _ | ⟨first, more⟩
  · exact ⟨last, [], hp⟩
  · exact ⟨first, more ++ [last], hp⟩

theorem intercalate_pieces (separator : Char) (text : List Char) :
    [separator].intercalate (Text.pieces separator text) = text := by
  rw [pieces_eq_splitOn]
  exact List.intercalate_splitOn separator

theorem mem_pieces {separator c : Char} {text : List Char} (h : c ∈ text) :
    c = separator ∨ ∃ piece ∈ Text.pieces separator text, c ∈ piece := by
  induction text with
  | nil => simp at h
  | cons first rest ih =>
    rw [Text.pieces]
    split
    · next hs =>
      rcases List.mem_cons.mp h with rfl | hr
      · exact .inl hs
      · refine (ih hr).imp_right ?_
        rintro ⟨piece, hp, hc⟩
        exact ⟨piece, List.mem_cons_of_mem _ hp, hc⟩
    · rcases hp : Text.pieces separator rest with _ | ⟨piece, more⟩
      · rcases List.mem_cons.mp h with rfl | hr
        · exact .inr ⟨[c], by simp⟩
        · exact .inl (by simpa [hp] using ih hr)
      · rcases List.mem_cons.mp h with rfl | hr
        · exact .inr ⟨c :: piece, by simp⟩
        · rw [hp] at ih
          refine (ih hr).imp_right ?_
          rintro ⟨found, hf, hc⟩
          rcases List.mem_cons.mp hf with rfl | hm
          · exact ⟨first :: found, by simp, List.mem_cons_of_mem _ hc⟩
          · exact ⟨found, List.mem_cons_of_mem _ hm, hc⟩

theorem intercalate_splitAt (package : String) :
    ".".intercalate (Text.splitAt '.' package) = package := by
  rw [← String.toList_inj, String.toList_intercalate, Text.splitAt, List.map_map]
  simp only [Function.comp_def, String.toList_ofList, List.map_id']
  exact intercalate_pieces '.' package.toList

end StyleFamily
