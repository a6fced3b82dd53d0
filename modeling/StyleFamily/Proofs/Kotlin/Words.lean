import Mathlib.Data.List.Forall2
import StyleFamily.Proofs.Layout.Lines
import StyleFamily.Proofs.Text.Characters

/-!
# The words of source text

A word is a longest run of letters, digits, underscores and quotes. What the lines of a source text
hold outside its comments are words and marks between them, so the words of a line can be told part
by part as long as no two parts run into each other.
-/
namespace StyleFamily
namespace Kotlin
open Fragment

/-- A character that a name, quoted or not, is spelled with. -/
def isWordPart (c : Char) : Bool := isNamePart c || quotes.contains c

/-- The words in a row of characters. -/
def charWords (chars : List Char) : List (List Char) :=
  (chars.splitOnP (!isWordPart ·)).filter (!·.isEmpty)

/-- The words of a text. -/
def words (text : String) : List String := (charWords text.toList).map String.ofList

/-- The words of a line; a comment has none. -/
def lineWords (line : String) : List String :=
  if (Text.withoutMargin line).toList.head? = some '/' then [] else words line

/-- The words of a source text outside its comments. -/
def codeWords (text : String) : List String := (Text.lines text).flatMap lineWords

theorem charWords_append_separator {c : Char} (hc : isWordPart c = false) (front rest : List Char) :
    charWords (front ++ c :: rest) = charWords front ++ charWords rest := by
  rw [charWords, List.splitOnP_append_cons front rest (by simp [hc]), List.filter_append]
  rfl

theorem charWords_eq_nil {chars : List Char} (h : ∀ c ∈ chars, isWordPart c = false) :
    charWords chars = [] := by
  induction chars with
  | nil => rfl
  | cons c rest ih =>
    obtain ⟨hc, hrest⟩ := List.forall_mem_cons.mp h
    rw [← List.nil_append (c :: rest), charWords_append_separator hc, ih hrest]
    rfl

/-- A text that begins with no word. -/
def Opens (text : String) : Prop := text.toList.head?.all (!isWordPart ·) = true

/-- A text that ends in no word. -/
def Closes (text : String) : Prop := text.toList.getLast?.all (!isWordPart ·) = true

instance (text : String) : Decidable (Opens text) := inferInstanceAs (Decidable (_ = true))

instance (text : String) : Decidable (Closes text) := inferInstanceAs (Decidable (_ = true))

theorem opens_append {a : String} (ha : Opens a) (hne : a ≠ "") (b : String) : Opens (a ++ b) := by
  obtain ⟨c, rest, hc⟩ := List.exists_cons_of_ne_nil fun he => hne (String.toList_eq_nil_iff.mp he)
  rw [Opens, hc] at ha
  rw [Opens, String.toList_append, hc]
  exact ha

theorem closes_append {b : String} (hb : Closes b) (hne : b ≠ "") (a : String) :
    Closes (a ++ b) := by
  have hlist : b.toList ≠ [] := fun he => hne (String.toList_eq_nil_iff.mp he)
  rw [Closes, String.toList_append, List.getLast?_append_of_ne_nil _ hlist]
  exact hb

/-- Texts that do not run into each other have the words of both. -/
theorem words_append {a b : String} (h : Closes a ∨ Opens b) :
    words (a ++ b) = words a ++ words b := by
  rw [words, words, words, String.toList_append, ← List.map_append]
  rcases h with ha | hb
  · rw [Closes] at ha
    rcases List.eq_nil_or_concat a.toList with he | ⟨front, c, hfront⟩
    · rw [he]
      rfl
    · rw [List.concat_eq_append] at hfront
      have hc : isWordPart c = false := by simpa [hfront] using ha
      rw [hfront, List.append_assoc, List.singleton_append, charWords_append_separator hc,
        charWords_append_separator hc front []]
      simp [charWords]
  · rw [Opens] at hb
    rcases hlist : b.toList with _ | ⟨c, rest⟩
    · simp [charWords]
    · have hc : isWordPart c = false := by simpa [hlist] using hb
      have hrest : charWords (c :: rest) = charWords rest :=
        charWords_append_separator hc [] rest
      rw [charWords_append_separator hc, hrest]

example : words ("val `in`" ++ ": Shape") = words "val `in`" ++ words ": Shape" ∧
    words "val `in`: Shape" = ["val", "`in`", "Shape"] := by decide

theorem words_of_word {text : String} (hne : text ≠ "")
    (h : ∀ c ∈ text.toList, isWordPart c = true) : words text = [text] := by
  have hlist : text.toList ≠ [] := fun he => hne (String.toList_eq_nil_iff.mp he)
  have hchars : charWords text.toList = [text.toList] := by
    rw [charWords, List.splitOnP_eq_singleton fun c hc => by simp [h c hc]]
    simpa using hlist
  rw [words, hchars, List.map_singleton, String.ofList_toList]

theorem words_of_isIdentifier {name : String} (h : isIdentifier name = true) :
    words name = [name] :=
  words_of_word (ne_empty_of_isIdentifier h) fun c hc => by
    simp [isWordPart, isNamePart_of_mem h hc]

theorem words_safe {name : String} (h : isIdentifier name = true) :
    words (safe name) = [safe name] := by
  refine words_of_word (fun he => ?_) fun c hc => ?_
  · obtain ⟨c, rest, hc⟩ := exists_cons_safe h
    rw [he] at hc
    exact absurd hc (by simp)
  · rw [isWordPart, Bool.or_eq_true]
    rcases mem_safe hc with hn | hq
    · exact .inl (isNamePart_of_mem h hn)
    · exact .inr (by simp [quotes, hq])

/-- A word of a unit: one that every unit may use, the name of a declaration, the name of a member
or a component of the package. -/
inductive Word
  | fixed (text : String)
  | declared (name : String)
  | member (name : String)
  | segment (name : String)
deriving DecidableEq

namespace Word

/-- The word as it is written: members through the naming convention, all else as it is. -/
def spelled : Word → String
  | .member name => safe name
  | .fixed text | .declared text | .segment text => text

/-- Names are identifiers. -/
def Valid : Word → Prop
  | .declared name | .member name => isIdentifier name = true
  | .fixed _ | .segment _ => True

end Word

/-- A text that neither ends its line nor begins a comment. -/
def Plain (text : String) : Prop := Text.Unbroken text ∧ '/' ∉ text.toList

instance (text : String) : Decidable (Plain text) :=
  inferInstanceAs (Decidable (Text.Unbroken text ∧ '/' ∉ text.toList))

theorem plain_append {a b : String} (ha : Plain a) (hb : Plain b) : Plain (a ++ b) := by
  refine ⟨unbroken_append.mpr ⟨ha.1, hb.1⟩, ?_⟩
  rw [String.toList_append, List.mem_append, not_or]
  exact ⟨ha.2, hb.2⟩

/-- A part of a line with the words in it. -/
structure Lexes (text : String) (ws : List Word) : Prop where
  plain : Plain text
  words : words text = ws.map Word.spelled

/-- A fixed text, with its words, that a name can follow. -/
def Leads (text : String) (ws : List String) : Prop :=
  Plain text ∧ words text = ws ∧ Closes text

instance (text : String) (ws : List String) : Decidable (Leads text ws) :=
  inferInstanceAs (Decidable (Plain text ∧ words text = ws ∧ Closes text))

/-- A fixed text, with its words, that can stand between names. -/
def Separates (text : String) (ws : List String) : Prop := Leads text ws ∧ Opens text ∧ text ≠ ""

instance (text : String) (ws : List String) : Decidable (Separates text ws) :=
  inferInstanceAs (Decidable (Leads text ws ∧ Opens text ∧ text ≠ ""))

theorem Leads.append {a b : String} {xs ys : List String} (ha : Leads a xs) (hb : Leads b ys) :
    Leads (a ++ b) (xs ++ ys) := by
  refine ⟨plain_append ha.1 hb.1, ?_, ?_⟩
  · rw [words_append (.inl ha.2.2), ha.2.1, hb.2.1]
  · by_cases hne : b = ""
    · rw [hne, String.append_empty]
      exact ha.2.2
    · exact closes_append hb.2.2 hne a

namespace Lexes
variable {a b mark : String} {xs ys : List Word} {ws : List String}

theorem fixed (hp : Plain a) (hw : Kotlin.words a = ws) : Lexes a (ws.map .fixed) := by
  refine ⟨hp, ?_⟩
  rw [hw, List.map_map]
  exact (List.map_id ws).symm

theorem empty : Lexes "" [] := ⟨by decide, rfl⟩

theorem word (h : Plain a ∧ Kotlin.words a = [a]) : Lexes a [.fixed a] := fixed h.1 h.2

theorem declared (h : isIdentifier a = true) : Lexes a [.declared a] :=
  ⟨⟨unbroken_of_isIdentifier h, notMem_of_isIdentifier h (by decide)⟩, words_of_isIdentifier h⟩

theorem segment (h : isIdentifier a = true) : Lexes a [.segment a] :=
  ⟨(declared h).plain, (declared h).words⟩

theorem member (h : isIdentifier a = true) : Lexes (safe a) [.member a] :=
  ⟨⟨unbroken_safe h, notMem_safe h (by decide) (by decide)⟩, words_safe h⟩

theorem append (ha : Lexes a xs) (hb : Lexes b ys) (h : Closes a ∨ Opens b) :
    Lexes (a ++ b) (xs ++ ys) := by
  refine ⟨plain_append ha.plain hb.plain, ?_⟩
  rw [words_append h, ha.words, hb.words, List.map_append]

/-- A text after a fixed one. -/
theorem after (hm : Leads mark ws) (hb : Lexes b ys) : Lexes (mark ++ b) (ws.map .fixed ++ ys) :=
  (fixed hm.1 hm.2.1).append hb (.inl hm.2.2)

/-- A text before a fixed one. -/
theorem before (ha : Lexes a xs) (hm : Separates mark ws) :
    Lexes (a ++ mark) (xs ++ ws.map .fixed) :=
  ha.append (fixed hm.1.1 hm.1.2.1) (.inr hm.2.1)

/-- Two texts around a fixed one. -/
theorem around (ha : Lexes a xs) (hm : Separates mark ws) (hb : Lexes b ys) :
    Lexes (a ++ mark ++ b) (xs ++ ws.map .fixed ++ ys) :=
  (ha.before hm).append hb (.inl (closes_append hm.1.2.2 hm.2.2 a))

end Lexes

/-- Texts in a row, told apart by what stands between them. -/
theorem lexes_intercalate {α : Type} {items : List α} {text : α → String} {ws : α → List Word}
    {mark : String} (hm : Separates mark []) (h : ∀ item ∈ items, Lexes (text item) (ws item)) :
    Lexes (mark.intercalate (items.map text)) (items.flatMap ws) := by
  induction items with
  | nil => exact Lexes.empty
  | cons item rest ih =>
    obtain ⟨hitem, hrest⟩ := List.forall_mem_cons.mp h
    cases rest with
    | nil => simpa using hitem
    | cons next more =>
      rw [List.map_cons, List.map_cons, String.intercalate_cons_cons, List.flatMap_cons]
      simpa using hitem.around hm (ih hrest)

/-- Fragments with the words that their lines hold outside comments. -/
structure Reads (fragments : List Fragment) (ws : List Word) : Prop where
  unbroken : ∀ depth, ∀ line ∈ allLines depth fragments, Text.Unbroken line
  words : ∀ depth, (allLines depth fragments).flatMap lineWords = ws.map Word.spelled

/-- The margin of a line has no words, and without a slash the line is no comment. -/
theorem lineWords_lineAt {text : String} {ws : List Word} (h : Lexes text ws) (depth : Nat) :
    lineWords (lineAt depth text) = ws.map Word.spelled := by
  have hcode : (Text.withoutMargin (lineAt depth text)).toList.head? ≠ some '/' := by
    intro hhead
    have hmem := List.mem_of_head? hhead
    rw [Text.withoutMargin, String.toList_ofList] at hmem
    exact (mem_lineAt ((List.dropWhile_suffix _).subset hmem)).elim (by decide) h.plain.2
  have hmargin : ∀ c ∈ (lineAt depth "").toList, isWordPart c = false := by
    intro c hc
    obtain rfl := (mem_lineAt hc).resolve_right (by simp)
    decide
  have hcloses : Closes (lineAt depth "") :=
    Option.all_eq_true_iff_get _ _ |>.mpr fun hsome => by
      simpa using hmargin _ (List.mem_of_getLast? (Option.some_get hsome).symm)
  have hline : lineAt depth text = lineAt depth "" ++ text := by
    rw [lineAt, lineAt, String.append_empty]
  rw [lineWords, if_neg hcode, hline, words_append (.inl hcloses), h.words, Kotlin.words,
    charWords_eq_nil hmargin, List.map_nil, List.nil_append]

theorem lineWords_comment {text : String} {rest : List Char} (ht : text.toList = '/' :: rest)
    (depth : Nat) : lineWords (lineAt depth text) = [] := by
  have hmargin : Text.withoutMargin (lineAt depth text) = text := by
    have htext := withoutMargin_lineAt ht (by decide) depth ""
    rwa [String.append_empty] at htext
  rw [lineWords, hmargin, ht, List.head?_cons, if_pos rfl]

namespace Reads
variable {first rest : List Fragment} {xs ys : List Word}

theorem nil : Reads [] [] := ⟨fun _ _ h => absurd h (by simp [allLines]), fun _ => rfl⟩

theorem append (hf : Reads first xs) (hr : Reads rest ys) : Reads (first ++ rest) (xs ++ ys) := by
  refine ⟨fun depth line hl => ?_, fun depth => ?_⟩
  · rw [allLines_append, List.mem_append] at hl
    exact hl.elim (hf.unbroken depth line) (hr.unbroken depth line)
  · rw [allLines_append, List.flatMap_append, hf.words, hr.words, List.map_append]

/-- A line holds the same words at every depth. -/
theorem of_line {text : String} (hu : Text.Unbroken text)
    (hw : ∀ depth, lineWords (lineAt depth text) = xs.map Word.spelled) : Reads [.line text] xs := by
  refine ⟨fun depth line hl => ?_, fun depth => ?_⟩
  · obtain rfl : line = lineAt depth text := by simpa [allLines, linesOf] using hl
    exact unbroken_lineAt hu
  · simp [allLines, linesOf, hw]

theorem line {text : String} (h : Lexes text xs) : Reads [.line text] xs :=
  of_line h.plain.1 (lineWords_lineAt h)

/-- A line that begins like a comment has no words. -/
theorem comment {text : String} {tail : List Char} (ht : text.toList = '/' :: tail)
    (hu : Text.Unbroken text) : Reads [.line text] [] :=
  of_line hu (lineWords_comment ht)

theorem docs {doc : Option String} (h : ∀ text ∈ doc, Text.Unbroken text) :
    Reads (Fragment.docs doc) [] := by
  cases doc with
  | none => exact Reads.nil
  | some text =>
    have hopening : ("/** " ++ text ++ " */").toList =
        '/' :: ("** ".toList ++ text.toList ++ " */".toList) := by
      simp
    have hu : Text.Unbroken ("/** " ++ text ++ " */") :=
      unbroken_around (h text rfl) (by decide) (by decide)
    have hline := comment hopening hu
    exact ⟨hline.unbroken, hline.words⟩

theorem nested (h : Reads first xs) : Reads [.nested first] xs := by
  refine ⟨fun depth line hl => h.unbroken (depth + 1) line ?_, fun depth => ?_⟩
  · simpa [allLines, linesOf] using hl
  · simpa [allLines, linesOf] using h.words (depth + 1)

theorem block {opening closing : String} {os cs : List Word} (ho : Lexes opening os)
    (h : Reads first xs) (hc : Lexes closing cs) :
    Reads [.block opening first closing] (os ++ xs ++ cs) := by
  have hparts := ((line ho).append (nested h)).append (line hc)
  refine ⟨fun depth line hl => ?_, fun depth => ?_⟩
  · rw [allLines_parts] at hl
    exact hparts.unbroken depth line hl
  · rw [allLines_parts, hparts.words]

theorem flatMap {α : Type} {items : List α} {fragments : α → List Fragment} {ws : α → List Word}
    (h : ∀ item ∈ items, Reads (fragments item) (ws item)) :
    Reads (items.flatMap fragments) (items.flatMap ws) := by
  induction items with
  | nil => exact nil
  | cons item rest ih =>
    obtain ⟨hitem, hrest⟩ := List.forall_mem_cons.mp h
    exact hitem.append (ih hrest)

/-- Blank lines have no words. -/
theorem separated {groups : List (List Fragment)} {ws : List (List Word)}
    (h : List.Forall₂ Reads groups ws) : Reads (Fragment.separated groups) ws.flatten := by
  have hblank : Reads [.blank] [] := by
    refine ⟨fun depth line hl => ?_, fun depth => rfl⟩
    obtain rfl : line = "" := by simpa [allLines, linesOf] using hl
    decide
  rw [Fragment.separated]
  induction h with
  | nil => exact nil
  | @cons group gws groups ws hg _ ih =>
    cases group with
    | nil =>
      have hnone : gws = [] := by
        have hwords := hg.words 0
        simpa [allLines] using hwords.symm
      simpa [hnone] using ih
    | cons fragment more =>
      rw [List.filter_cons_of_pos (by rfl), List.flatten_cons]
      generalize groups.filter (!·.isEmpty) = rest at ih
      cases rest with
      | nil =>
        have hwords : ws.flatten = [] := by simpa [allLines] using (ih.words 0).symm
        simpa [hwords] using hg
      | cons next later =>
        rw [List.intercalate_cons_cons]
        simpa using (hg.append hblank).append ih

end Reads

/-- Fragments that are read as words have these words on their page. -/
theorem codeWords_textOf {fragments : List Fragment} {ws : List Word} (h : Reads fragments ws) :
    codeWords (textOf fragments) = ws.map Word.spelled := by
  rw [codeWords, lines_textOf (h.unbroken 0), h.words]

end Kotlin
end StyleFamily
