import StyleFamily.Proofs.Layout.Paragraph
import StyleFamily.Text

/-!
# The lines of a page

Every fragment puts whole lines on a page. A page whose texts have no break of their own is read
line by line as what the fragments put there.
-/
namespace StyleFamily

/-- A text without the characters of a line break. -/
def Text.Unbroken (text : String) : Prop := Text.Inline text ∧ '\r' ∉ text.toList

instance (text : String) : Decidable (Text.Unbroken text) :=
  inferInstanceAs (Decidable (Text.Inline text ∧ '\r' ∉ text.toList))

@[simp] theorem unbroken_append {a b : String} :
    Text.Unbroken (a ++ b) ↔ Text.Unbroken a ∧ Text.Unbroken b := by
  simp only [Text.Unbroken, inline_append, String.toList_append, List.mem_append, not_or]
  tauto

theorem unbroken_around {front text back : String} (ht : Text.Unbroken text)
    (hf : Text.Unbroken front) (hb : Text.Unbroken back) :
    Text.Unbroken (front ++ text ++ back) :=
  unbroken_append.mpr ⟨unbroken_append.mpr ⟨hf, ht⟩, hb⟩

namespace Fragment

/-- A line with the margin of its depth. -/
def lineAt (depth : Nat) (text : String) : String :=
  String.join (List.replicate depth Page.fourSpaces) ++ text

theorem lineAt_zero (text : String) : lineAt 0 text = text := by simp [lineAt]

theorem mem_lineAt {depth : Nat} {text : String} {c : Char} (h : c ∈ (lineAt depth text).toList) :
    c = ' ' ∨ c ∈ text.toList := by
  rw [lineAt, String.toList_append, List.mem_append] at h
  refine h.imp_left fun hm => ?_
  have hspaces : ∀ c ∈ Page.fourSpaces.toList, c = ' ' := by
    have hfour : Page.fourSpaces.toList = List.replicate 4 ' ' := by decide
    rw [hfour]
    exact fun c hc => List.eq_of_mem_replicate hc
  simp only [String.toList_join, List.mem_flatMap, List.mem_replicate] at hm
  obtain ⟨margin, ⟨_, rfl⟩, hc⟩ := hm
  exact hspaces c hc

theorem unbroken_lineAt {depth : Nat} {text : String} (h : Text.Unbroken text) :
    Text.Unbroken (lineAt depth text) :=
  ⟨fun hm => (mem_lineAt hm).elim (by decide) h.1, fun hm => (mem_lineAt hm).elim (by decide) h.2⟩

mutual
/-- The lines a fragment puts on a page. -/
def linesOf (depth : Nat) : Fragment → List String
  | .line text => [lineAt depth text]
  | .blank => [""]
  | .doc text => [lineAt depth ("/** " ++ text ++ " */")]
  | .block opening body closing =>
    lineAt depth opening :: allLines (depth + 1) body ++ [lineAt depth closing]
  | .nested body => allLines (depth + 1) body

def allLines (depth : Nat) : List Fragment → List String
  | [] => []
  | fragment :: rest => linesOf depth fragment ++ allLines depth rest
end

theorem allLines_append (depth : Nat) (front back : List Fragment) :
    allLines depth (front ++ back) = allLines depth front ++ allLines depth back := by
  induction front with
  | nil => rfl
  | cons fragment rest ih => rw [List.cons_append, allLines, allLines, ih, List.append_assoc]

theorem allLines_line (depth : Nat) (text : String) :
    allLines depth [.line text] = [lineAt depth text] := by
  rw [allLines, linesOf, allLines, List.append_nil]

theorem allLines_nested (depth : Nat) (body : List Fragment) :
    allLines depth [.nested body] = allLines (depth + 1) body := by
  rw [allLines, linesOf, allLines, List.append_nil]

/-- A block is its opening line, its body and its closing line. -/
theorem allLines_parts (depth : Nat) (opening closing : String) (body : List Fragment) :
    allLines depth [.block opening body closing] =
      allLines depth ([.line opening] ++ [.nested body] ++ [.line closing]) := by
  simp [allLines, linesOf]

theorem allLines_map_line (depth : Nat) (texts : List α) (text : α → String) :
    allLines depth (texts.map fun item => .line (text item)) =
      texts.map fun item => lineAt depth (text item) := by
  induction texts with
  | nil => rfl
  | cons item rest ih => rw [List.map_cons, allLines, ih]; rfl

/-- At the top level, lines have no margin. -/
theorem allLines_lines (texts : List String) : allLines 0 (texts.map .line) = texts :=
  (allLines_map_line 0 texts id).trans (by simp [lineAt_zero])

/-- A block of lines between its first line and its last. -/
theorem allLines_block (depth : Nat) (opening closing : String) (texts : List α)
    (text : α → String) :
    allLines depth [.block opening (texts.map fun item => .line (text item)) closing] =
      lineAt depth opening :: (texts.map fun item => lineAt (depth + 1) (text item)) ++
        [lineAt depth closing] := by
  rw [allLines, linesOf, allLines_map_line, allLines, List.append_nil]

/-- A line and the break after it. -/
def ended (line : String) : List Char := line.toList ++ ['\n']

theorem row_eq (depth : Nat) (text : String) : row depth text = ended (lineAt depth text) := by
  simp [row, ended, lineAt, Page.marginOf]

mutual
theorem printed_eq (depth : Nat) (fragment : Fragment) :
    printed depth fragment = (linesOf depth fragment).flatMap ended := by
  cases fragment with
  | line text => simp [printed, linesOf, row_eq]
  | blank => rfl
  | doc text => simp [printed, linesOf, row_eq]
  | block opening body closing =>
    simp [printed, linesOf, row_eq, printedAll_eq (depth + 1) body]
  | nested body => rw [printed, linesOf, printedAll_eq]

theorem printedAll_eq (depth : Nat) (fragments : List Fragment) :
    printedAll depth fragments = (allLines depth fragments).flatMap ended := by
  cases fragments with
  | nil => rfl
  | cons fragment rest =>
    rw [printedAll, allLines, List.flatMap_append, printed_eq, printedAll_eq]
end

end Fragment

/-- Up to its break, a line is gathered last character first. -/
theorem linesFrom_unbroken {line : List Char} (hn : '\n' ∉ line) (read rest : List Char) :
    Text.linesFrom read (line ++ '\n' :: rest) =
      Text.closeLine (line.reverse ++ read) :: Text.linesFrom [] rest := by
  induction line generalizing read with
  | nil => rw [List.nil_append, Text.linesFrom, List.reverse_nil, List.nil_append]
  | cons c line ih =>
    obtain ⟨hc, hline⟩ := List.ne_and_not_mem_of_not_mem_cons hn
    rw [List.cons_append, Text.linesFrom, ih hline, List.reverse_cons, List.append_assoc]
    · rfl
    · exact Ne.symm hc

theorem closeLine_reverse {line : List Char} (hr : '\r' ∉ line) :
    Text.closeLine line.reverse = line := by
  unfold Text.closeLine
  split
  · next rest he => exact absurd (List.mem_reverse.mp (he ▸ List.mem_cons_self)) hr
  · exact List.reverse_reverse line

theorem linesFrom_ended {lines : List String} (h : ∀ line ∈ lines, Text.Unbroken line) :
    (Text.linesFrom [] (lines.flatMap Fragment.ended)).map String.ofList = lines := by
  induction lines with
  | nil => rfl
  | cons line rest ih =>
    obtain ⟨⟨hn, hr⟩, hrest⟩ := List.forall_mem_cons.mp h
    rw [List.flatMap_cons, Fragment.ended, List.append_assoc, List.singleton_append,
      linesFrom_unbroken hn, List.append_nil, closeLine_reverse hr, List.map_cons, ih hrest,
      String.ofList_toList]

/-- A page without further breaks is read as the lines that its fragments put there. -/
theorem lines_textOf {fragments : List Fragment}
    (h : ∀ line ∈ Fragment.allLines 0 fragments, Text.Unbroken line) :
    Text.lines (Fragment.textOf fragments) = Fragment.allLines 0 fragments := by
  rw [Text.lines, Fragment.textOf_toList, Fragment.printedAll_eq, linesFrom_ended h]

/-- A line without its margin. -/
def Text.withoutMargin (line : String) : String :=
  String.ofList (line.toList.dropWhile (· = ' '))

/-- The margin ends where the text begins. -/
theorem withoutMargin_lineAt {front : String} {c : Char} {more : List Char}
    (hf : front.toList = c :: more) (hc : c ≠ ' ') (depth : Nat) (rest : String) :
    Text.withoutMargin (Fragment.lineAt depth (front ++ rest)) = front ++ rest := by
  have hmargin : ∀ c ∈ (String.join (List.replicate depth Page.fourSpaces)).toList,
      decide (c = ' ') = true := by
    intro c hm
    rw [decide_eq_true_eq]
    have hline : c ∈ (Fragment.lineAt depth "").toList := by simpa [Fragment.lineAt] using hm
    exact (Fragment.mem_lineAt hline).resolve_right (by simp)
  have htext : (front ++ rest).toList = c :: (more ++ rest.toList) := by
    rw [String.toList_append, hf, List.cons_append]
  rw [Text.withoutMargin, Fragment.lineAt, String.toList_append,
    List.dropWhile_append_of_pos hmargin, htext, List.dropWhile_cons_of_neg (by simpa using hc),
    ← htext, String.ofList_toList]

end StyleFamily
