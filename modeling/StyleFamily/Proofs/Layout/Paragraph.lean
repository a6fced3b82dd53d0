import Mathlib.Data.List.Basic
import StyleFamily.Layout

/-!
# The characters of a page

What fragments put on a page depends on the depth alone, and fragments that follow each other put
their characters one after another. Groups that are separated by blank lines become paragraphs: a
group with the blank line before it, and nothing for an empty group.
-/
namespace StyleFamily

/-- The margin of a depth. -/
def Page.marginOf (depth : Nat) : List Char :=
  (String.join (List.replicate depth Page.fourSpaces)).toList

namespace Fragment

/-- The characters of a line with its margin and its end. -/
def row (depth : Nat) (text : String) : List Char :=
  Page.marginOf depth ++ text.toList ++ ['\n']

mutual
/-- The characters a fragment puts on a page. -/
def printed (depth : Nat) : Fragment → List Char
  | .line text => row depth text
  | .blank => ['\n']
  | .doc text => row depth ("/** " ++ text ++ " */")
  | .block opening body closing =>
    row depth opening ++ printedAll (depth + 1) body ++ row depth closing
  | .nested body => printedAll (depth + 1) body

def printedAll (depth : Nat) : List Fragment → List Char
  | [] => []
  | fragment :: rest => printed depth fragment ++ printedAll depth rest
end

/-- A group of fragments after a blank line; an empty group needs none. -/
def paragraph (depth : Nat) (group : List Fragment) : List Char :=
  if group.isEmpty then [] else '\n' :: printedAll depth group

theorem printedAll_append (depth : Nat) (first rest : List Fragment) :
    printedAll depth (first ++ rest) = printedAll depth first ++ printedAll depth rest := by
  induction first with
  | nil => rfl
  | cons fragment more ih => rw [List.cons_append, printedAll, printedAll, ih, List.append_assoc]

end Fragment

namespace Page
open Fragment

/-- A page of a generated file with more characters on it. -/
def more (depth : Nat) (text : String) (chars : List Char) : Page :=
  ⟨fourSpaces, depth, text ++ String.ofList chars⟩

theorem pushLine_eq (depth : Nat) (text line : String) :
    pushLine ⟨fourSpaces, depth, text⟩ line = more depth text (row depth line) := by
  have ht : text ++ String.join (List.replicate depth fourSpaces) ++ line ++ "\n" =
      text ++ String.ofList (row depth line) := by
    rw [← String.toList_inj]
    simp [row, marginOf]
  rw [pushLine, more, ← ht]

theorem more_append (text : String) (first rest : List Char) :
    text ++ String.ofList first ++ String.ofList rest = text ++ String.ofList (first ++ rest) := by
  rw [String.ofList_append, String.append_assoc]

mutual
theorem put_eq (depth : Nat) (text : String) (fragment : Fragment) :
    put ⟨fourSpaces, depth, text⟩ fragment = more depth text (printed depth fragment) := by
  cases fragment with
  | line line => rw [put, printed, pushLine_eq]
  | blank => rfl
  | doc line => rw [put, printed, pushLine_eq]
  | block opening body closing =>
    rw [put, pushLine_eq, more, deeper, putAll_eq, more, shallower, Nat.add_sub_cancel,
      pushLine_eq, more, more, printed, more_append, more_append, List.append_assoc]
  | nested body => rw [put, deeper, putAll_eq, more, shallower, Nat.add_sub_cancel, more, printed]

theorem putAll_eq (depth : Nat) (text : String) (fragments : List Fragment) :
    putAll ⟨fourSpaces, depth, text⟩ fragments = more depth text (printedAll depth fragments) := by
  cases fragments with
  | nil => simp [putAll, more, printedAll]
  | cons fragment rest =>
    rw [putAll, put_eq, more, putAll_eq, more, more, printedAll, more_append]
end

end Page

namespace Fragment

theorem textOf_toList (fragments : List Fragment) :
    (textOf fragments).toList = printedAll 0 fragments := by
  rw [textOf, Page.putAll_eq, Page.more]
  simp

theorem paragraph_append {first : List Fragment} (h : first ≠ []) (depth : Nat)
    (rest : List Fragment) :
    paragraph depth (first ++ rest) = paragraph depth first ++ printedAll depth rest := by
  simp [paragraph, h, printedAll_append]

theorem paragraph_intercalate (depth : Nat) {groups : List (List Fragment)}
    (h : ∀ group ∈ groups, group ≠ []) :
    paragraph depth ([blank].intercalate groups) = groups.flatMap (paragraph depth) := by
  induction groups with
  | nil => rfl
  | cons first rest ih =>
    obtain ⟨hf, hr⟩ := List.forall_mem_cons.mp h
    cases rest with
    | nil => simp
    | cons second more =>
      have hne : [blank].intercalate (second :: more) ≠ [] := by
        cases more <;> simp [hr second]
      have hblank : printedAll depth ([blank] ++ [blank].intercalate (second :: more)) =
          paragraph depth ([blank].intercalate (second :: more)) := by
        simp [printedAll, printed, paragraph, hne]
      rw [List.intercalate_cons_cons, List.append_assoc, paragraph_append hf, hblank, ih hr]
      rfl

/-- Separated groups are so many paragraphs. -/
theorem paragraph_separated (depth : Nat) (groups : List (List Fragment)) :
    paragraph depth (separated groups) = groups.flatMap (paragraph depth) := by
  rw [separated, paragraph_intercalate depth (by simp)]
  induction groups with
  | nil => rfl
  | cons first rest ih => cases first <;> simp [ih, paragraph]

/-- Separated groups lack the blank line before the first paragraph only. -/
theorem cons_printedAll_separated {depth : Nat} {groups : List (List Fragment)}
    (h : groups.flatMap (paragraph depth) ≠ []) :
    '\n' :: printedAll depth (separated groups) = groups.flatMap (paragraph depth) := by
  rw [← paragraph_separated, paragraph] at h ⊢
  split at h
  · exact absurd rfl h
  · next hne => rw [if_neg hne]

end Fragment

/-- A text that does not break the line it stands in. -/
def Text.Inline (text : String) : Prop := '\n' ∉ text.toList

instance (text : String) : Decidable (Text.Inline text) :=
  inferInstanceAs (Decidable ('\n' ∉ text.toList))

@[simp] theorem inline_append {a b : String} :
    Text.Inline (a ++ b) ↔ Text.Inline a ∧ Text.Inline b := by
  simp [Text.Inline]

/-- A text ends at the first separator after it, if it has none of its own. -/
theorem append_separator_inj {separator : α} {a b r s : List α} (ha : separator ∉ a)
    (hb : separator ∉ b) (h : a ++ separator :: r = b ++ separator :: s) : a = b ∧ r = s := by
  induction a generalizing b with
  | nil =>
    cases b with
    | nil => exact ⟨rfl, (List.cons.inj h).2⟩
    | cons y b => exact absurd (by simp [(List.cons.inj h).1]) hb
  | cons x a ih =>
    cases b with
    | nil => exact absurd (by simp [(List.cons.inj h).1]) ha
    | cons y b =>
      obtain ⟨rfl, htail⟩ := List.cons.inj h
      obtain ⟨rfl, hrest⟩ :=
        ih (List.not_mem_of_not_mem_cons ha) (List.not_mem_of_not_mem_cons hb) htail
      exact ⟨rfl, hrest⟩

namespace Fragment

/-- Where a line ends can be seen. -/
theorem row_append_inj {depth : Nat} {a b : String} (ha : Text.Inline a) (hb : Text.Inline b)
    {r s : List Char} (h : row depth a ++ r = row depth b ++ s) : a = b ∧ r = s := by
  rw [row, row, List.append_assoc, List.append_assoc, List.append_assoc, List.append_assoc] at h
  obtain ⟨htext, hrest⟩ := append_separator_inj ha hb (List.append_cancel_left h)
  exact ⟨String.toList_inj.mp htext, hrest⟩

/-- A line with something in it is no blank line. -/
theorem row_append_ne_blank {a : String} (ha : Text.Inline a) (hne : a ≠ "") {r s : List Char} :
    row 0 a ++ r ≠ '\n' :: s := by
  obtain ⟨c, rest, hc⟩ := List.exists_cons_of_ne_nil fun he => hne (String.toList_eq_nil_iff.mp he)
  intro h
  rw [row, hc] at h
  have hbreak : c = '\n' := (List.cons.inj h).1
  exact ha (by simp [hc, hbreak])

/-- Where a group of lines ends can be seen from the blank line after it. -/
theorem lines_append_inj {first second : List String}
    (hf : ∀ line ∈ first, Text.Inline line ∧ line ≠ "")
    (hs : ∀ line ∈ second, Text.Inline line ∧ line ≠ "") {r s : List Char}
    (h : printedAll 0 (first.map .line) ++ '\n' :: r =
      printedAll 0 (second.map .line) ++ '\n' :: s) : first = second ∧ r = s := by
  induction first generalizing second with
  | nil =>
    cases second with
    | nil => exact ⟨rfl, (List.cons.inj h).2⟩
    | cons b second =>
      obtain ⟨⟨hb, hne⟩, _⟩ := List.forall_mem_cons.mp hs
      rw [List.map_cons, printedAll, printed, List.append_assoc] at h
      exact absurd h.symm (row_append_ne_blank hb hne)
  | cons a first ih =>
    obtain ⟨⟨ha, hne⟩, hfirst⟩ := List.forall_mem_cons.mp hf
    rw [List.map_cons, printedAll, printed, List.append_assoc] at h
    cases second with
    | nil => exact absurd h (row_append_ne_blank ha hne)
    | cons b second =>
      obtain ⟨⟨hb, _⟩, hsecond⟩ := List.forall_mem_cons.mp hs
      rw [List.map_cons, printedAll, printed, List.append_assoc] at h
      obtain ⟨rfl, htail⟩ := row_append_inj ha hb h
      obtain ⟨rfl, hrest⟩ := ih hfirst hsecond htail
      exact ⟨rfl, hrest⟩

end Fragment
end StyleFamily
