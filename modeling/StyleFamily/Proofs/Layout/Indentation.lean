import StyleFamily.Proofs.Layout.Paragraph
import StyleFamily.Proofs.Text.Pieces

/-!
# Indentation

What fragments put on a page does not depend on what stands there, and on its depth by the margins
only. Main statement: fragments put on any page, with any unit of margin, leave the depth and add
the lines that they have on a page of their own, each with the margins of the depth in front of it,
but for the lines of blanks.
-/
namespace StyleFamily

/-- A line that fragments write without a margin from outside, and whether it comes from a blank. -/
structure Row where
  blank : Bool
  text : String
deriving DecidableEq

namespace Row

/-- The row behind a margin; a blank has none. -/
def indented (margin : String) (row : Row) : Row :=
  if row.blank then row else { row with text := margin ++ row.text }

/-- Rows, each with its line feed. -/
def print (rows : List Row) : String := String.join (rows.map (·.text ++ "\n"))

theorem print_append (front back : List Row) :
    print (front ++ back) = print front ++ print back := by
  simp [print, String.join_append]

theorem indented_empty (row : Row) : row.indented "" = row := by
  unfold indented
  split <;> simp

/-- The outer margin stands in front of the inner one. -/
theorem indented_indented (outer inner : String) (row : Row) :
    (row.indented inner).indented outer = row.indented (outer ++ inner) := by
  unfold indented
  split <;> simp_all [String.append_assoc]

/-- Rows without breaks of their own are the lines of what they print. -/
theorem splitAt_print {rows : List Row} (h : ∀ row ∈ rows, Text.Inline row.text) :
    Text.splitAt '\n' (print rows) = rows.map (·.text) ++ [""] := by
  induction rows with
  | nil => decide
  | cons row rest ih =>
    obtain ⟨hrow, hrest⟩ := List.forall_mem_cons.mp h
    have hchars :
        (print (row :: rest)).toList = row.text.toList ++ '\n' :: (print rest).toList := by
      simp [print]
    rw [Text.splitAt, hchars, pieces_append_separator, pieces_of_notMem hrow, List.map_append,
      List.map_singleton, String.ofList_toList]
    exact congrArg (row.text :: ·) (ih hrest)

theorem inline_indented {margin : String} (hmargin : Text.Inline margin) {rows : List Row}
    (h : ∀ row ∈ rows, Text.Inline row.text) :
    ∀ row ∈ rows.map (indented margin), Text.Inline row.text := by
  intro _ hmem
  obtain ⟨row, hrow, rfl⟩ := List.mem_map.mp hmem
  unfold indented
  split
  · exact h row hrow
  · exact inline_append.mpr ⟨hmargin, h row hrow⟩

end Row

namespace Fragment

mutual
/-- The rows of a fragment, a level deeper for each body it stands in. -/
def rows (margin : String) : Fragment → List Row
  | .line text => [⟨false, text⟩]
  | .blank => [⟨true, ""⟩]
  | .doc text => [⟨false, "/** " ++ text ++ " */"⟩]
  | .block opening body closing =>
    ⟨false, opening⟩ :: (allRows margin body).map (Row.indented margin) ++ [⟨false, closing⟩]
  | .nested body => (allRows margin body).map (Row.indented margin)

def allRows (margin : String) : List Fragment → List Row
  | [] => []
  | fragment :: rest => rows margin fragment ++ allRows margin rest
end

mutual
/-- The texts in a fragment. -/
def texts : Fragment → List String
  | .line text | .doc text => [text]
  | .blank => []
  | .block opening body closing => opening :: allTexts body ++ [closing]
  | .nested body => allTexts body

def allTexts : List Fragment → List String
  | [] => []
  | fragment :: rest => texts fragment ++ allTexts rest
end

mutual
theorem inline_rows {margin : String} (hmargin : Text.Inline margin) {fragment : Fragment}
    (h : ∀ text ∈ texts fragment, Text.Inline text) :
    ∀ row ∈ rows margin fragment, Text.Inline row.text := by
  cases fragment with
  | line text => simpa [rows, texts] using h
  | blank => simp [rows, Text.Inline]
  | doc text => simpa [rows, texts, Text.Inline] using h
  | block opening body closing =>
    simp only [texts, List.cons_append, List.forall_mem_cons, List.forall_mem_append] at h
    obtain ⟨hopening, hbody, hclosing, -⟩ := h
    simp only [rows, List.cons_append, List.forall_mem_cons, List.forall_mem_append]
    exact ⟨hopening, Row.inline_indented hmargin (inline_allRows hmargin hbody), hclosing, by simp⟩
  | nested body => exact Row.inline_indented hmargin (inline_allRows hmargin h)

theorem inline_allRows {margin : String} (hmargin : Text.Inline margin) {fragments : List Fragment}
    (h : ∀ text ∈ allTexts fragments, Text.Inline text) :
    ∀ row ∈ allRows margin fragments, Text.Inline row.text := by
  cases fragments with
  | nil => exact fun _ hmem => absurd hmem List.not_mem_nil
  | cons fragment rest =>
    rw [allTexts, List.forall_mem_append] at h
    rw [allRows, List.forall_mem_append]
    exact ⟨inline_rows hmargin h.1, inline_allRows hmargin h.2⟩
end

end Fragment

namespace Page

/-- The margins of the page's depth. -/
def indent (page : Page) : String := String.join (List.replicate page.depth page.margin)

/-- Rows at the depth of the page. -/
def write (page : Page) (rows : List Row) : Page :=
  { page with text := page.text ++ Row.print (rows.map (Row.indented page.indent)) }

/-- What fragments put on a page of their own. -/
def textOf (margin : String) (fragments : List Fragment) : String :=
  (putAll { margin } fragments).text

theorem write_append (page : Page) (front back : List Row) :
    page.write (front ++ back) = (page.write front).write back := by
  show _ = { page with
    text := (page.write front).text ++ Row.print (back.map (Row.indented page.indent)) }
  simp only [write, List.map_append, Row.print_append, String.append_assoc]

theorem pushLine_write (page : Page) (line : String) :
    page.pushLine line = page.write [⟨false, line⟩] := by
  simp [pushLine, write, Row.print, Row.indented, indent, String.append_assoc]

theorem pushBlank_write (page : Page) : page.pushBlank = page.write [⟨true, ""⟩] := by
  simp [pushBlank, write, Row.print, Row.indented]

theorem indent_deeper (page : Page) : page.deeper.indent = page.indent ++ page.margin := by
  show String.join (List.replicate (page.depth + 1) page.margin) = _
  rw [List.replicate_succ', String.join_append]
  simp [indent]

/-- What is written one level deeper has one more margin. -/
theorem write_deeper (page : Page) (rows : List Row) :
    (page.deeper.write rows).shallower = page.write (rows.map (Row.indented page.margin)) := by
  have hrows : rows.map (Row.indented (page.indent ++ page.margin)) =
      (rows.map (Row.indented page.margin)).map (Row.indented page.indent) := by
    simp [Function.comp_def, Row.indented_indented]
  rw [write, indent_deeper, hrows]
  rfl

mutual
theorem put_write (page : Page) (fragment : Fragment) :
    page.put fragment = page.write (fragment.rows page.margin) := by
  cases fragment with
  | line text => exact pushLine_write page text
  | blank => exact pushBlank_write page
  | doc text => exact pushLine_write page _
  | block opening body closing =>
    rw [put, pushLine_write, putAll_write, write_deeper, pushLine_write, ← write_append,
      ← write_append, Fragment.rows, ← List.singleton_append]
    rfl
  | nested body => rw [put, putAll_write, write_deeper]; rfl

theorem putAll_write (page : Page) (fragments : List Fragment) :
    page.putAll fragments = page.write (Fragment.allRows page.margin fragments) := by
  cases fragments with
  | nil => simp [putAll, write, Fragment.allRows, Row.print]
  | cons fragment rest =>
    rw [putAll, put_write, putAll_write, Fragment.allRows, write_append]
    rfl
end

theorem indent_ground (margin : String) : ({ margin } : Page).indent = "" := rfl

/-- On a page of its own a list has its rows as they are. -/
theorem textOf_rows (margin : String) (fragments : List Fragment) :
    textOf margin fragments = Row.print (Fragment.allRows margin fragments) := by
  have hground : (Fragment.allRows margin fragments).map (Row.indented "") =
      Fragment.allRows margin fragments :=
    (List.map_congr_left fun row _ => Row.indented_empty row).trans (List.map_id' _)
  rw [textOf, putAll_write, write, indent_ground, hground]
  exact String.empty_append

theorem inline_indent {page : Page} (h : Text.Inline page.margin) : Text.Inline page.indent := by
  intro hmem
  simp only [indent, String.toList_join, List.mem_flatMap, List.mem_replicate] at hmem
  obtain ⟨_, ⟨-, rfl⟩, hbreak⟩ := hmem
  exact h hbreak

/-- Two lists one after the other are put as one list. -/
theorem putAll_append (page : Page) (front back : List Fragment) :
    page.putAll (front ++ back) = (page.putAll front).putAll back := by
  induction front generalizing page with
  | nil => rfl
  | cons fragment rest ih => rw [List.cons_append, putAll, putAll, ih]

/-- Whatever stands on a page and whatever its margin is, fragments keep the depth and only add to
the text: the rows that they print on a page of their own, behind the margins of the depth but for
the blanks. Where no margin and no text has a line break, these rows are the lines of both texts.
A list after another is put as one list, and a nested list prints its rows behind one margin. -/
theorem emission_indents (page : Page) (xs ys : List Fragment) :
    let rows := Fragment.allRows page.margin xs
    let added := rows.map (Row.indented page.indent)
    page.putAll xs = { page with text := page.text ++ Row.print added } ∧
      textOf page.margin xs = Row.print rows ∧
      (Text.Inline page.margin → (∀ text ∈ Fragment.allTexts xs, Text.Inline text) →
        Text.splitAt '\n' (textOf page.margin xs) = rows.map (·.text) ++ [""] ∧
          Text.splitAt '\n' (Row.print added) = added.map (·.text) ++ [""]) ∧
      page.putAll (xs ++ ys) = (page.putAll xs).putAll ys ∧
      textOf page.margin [.nested xs] = Row.print (rows.map (Row.indented page.margin)) := by
  intro rows added
  refine ⟨putAll_write page xs, textOf_rows page.margin xs, fun hmargin htexts => ?_,
    putAll_append page xs ys, ?_⟩
  · have hrows := Fragment.inline_allRows hmargin htexts
    rw [textOf_rows]
    exact ⟨Row.splitAt_print hrows,
      Row.splitAt_print (Row.inline_indented (inline_indent hmargin) hrows)⟩
  · rw [textOf_rows, Fragment.allRows, Fragment.rows, Fragment.allRows, List.append_nil]

/-- A block of a blank, an empty line and a nested line, on a page at depth two with tabs. -/
theorem tabbed_emission_indents :
    let page : Page := ⟨"\t", 2, "a\n"⟩
    let xs := [Fragment.braced "b \x7b" [.blank, .line "", .nested [.line "c"]]]
    Text.Inline page.margin ∧ (∀ text ∈ Fragment.allTexts xs, Text.Inline text) ∧
      (page.putAll xs).text = "a\n\t\tb \x7b\n\n\t\t\t\n\t\t\t\tc\n\t\t\x7d\n" ∧
      Text.splitAt '\n' (textOf page.margin xs) = ["b \x7b", "", "\t", "\t\tc", "\x7d", ""] := by
  intro page xs
  have hmargin : Text.Inline page.margin := by decide
  have htexts : ∀ text ∈ Fragment.allTexts xs, Text.Inline text := by decide
  obtain ⟨hput, -, hlines, -⟩ := emission_indents page xs []
  refine ⟨hmargin, htexts, ?_, (hlines hmargin htexts).1.trans (by decide)⟩
  rw [hput]
  decide

end Page
end StyleFamily
