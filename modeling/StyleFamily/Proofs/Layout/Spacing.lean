import Mathlib.Data.List.Chain
import StyleFamily.Proofs.Layout.Brackets

/-!
# Blank lines

A well laid out text has balanced brackets, no white space at the end of a line, and blank lines
only one at a time and inside of what is opened or closed. Fragments are put together from
passages: a passage leads from the brackets that are open before it to those that are open after
it, and can be followed by any other. Main statement: groups of such fragments, separated by blank
lines, are well laid out, and are read back as the sections of the text.
-/
namespace StyleFamily
namespace Text

/-- A line with nothing to see in it. -/
def isBlankLine (line : String) : Bool := line.toList.all isBlank

/-- When a line may come after another: no two blank lines in a row, and none directly after a line
that opens something or directly before one that begins by closing. -/
structure MayFollow (line next : String) : Prop where
  single : isBlankLine next = true → isBlankLine line = false
  opened : isBlankLine next = true → line.toList.getLast? ∉ [some '{', some '(']
  closed : isBlankLine line = true → next.toList.find? (!isBlank ·) ∉ [some '}', some ')']

structure LaidOut (text : String) : Prop where
  balanced : Balanced text.toList
  /-- The lines and their breaks are all there is. -/
  whole : text.toList = (lines text).flatMap Fragment.ended
  trimmed : ∀ line ∈ lines text, line.toList.getLast?.any isBlank = false
  spaced : (lines text).IsChain MayFollow
  /-- One line break ends the text. -/
  ending : ∃ front c, text.toList = front ++ [c, '\n'] ∧ isBlank c = false

/-- The first line begins the text. -/
theorem LaidOut.begins {text line : String} {rest : List String} (h : LaidOut text)
    (hl : lines text = line :: rest) : ∃ back, text = line ++ "\n" ++ back := by
  have hwhole := h.whole
  rw [hl, List.flatMap_cons, Fragment.ended] at hwhole
  refine ⟨String.ofList (rest.flatMap Fragment.ended), String.toList_inj.mp ?_⟩
  simpa using hwhole

/-- Lines divided by the blank lines that stand outside of all braces, at a depth of braces. -/
def sectionsFrom : Nat → List String → List (List String)
  | _, [] => [[]]
  | depth, line :: rest =>
    if depth = 0 ∧ isBlankLine line = true then [] :: sectionsFrom 0 rest
    else
      let next := depth + line.toList.count '{' - line.toList.count '}'
      (sectionsFrom next rest).modifyHead (line :: ·)

/-- The sections of a text, between the blank lines outside of all braces. -/
def sections (text : String) : List (List String) := sectionsFrom 0 (lines text)

example : sections "a\n\nb \x7b\n    c\n\n    d\n\x7d\n" =
    [["a"], ["b \x7b", "    c", "", "    d", "\x7d"]] := by decide

/-- Lines that can stand between others, with the brackets that are due before and after. -/
structure Passage (due left : List Char) (lines : List String) : Prop where
  brackets : pending due (lines.flatMap Fragment.ended) = some left
  unbroken : ∀ line ∈ lines, Unbroken line
  trimmed : ∀ line ∈ lines, line.toList.getLast?.any isBlank = false
  spaced : lines.IsChain MayFollow
  first : ∀ line ∈ lines.head?, isBlankLine line = false
  last : ∀ line ∈ lines.getLast?, isBlankLine line = false

/-- Lines that stay in one section. -/
def Uncut (depth left : Nat) (lines : List String) : Prop :=
  ∀ rest, sectionsFrom depth (lines ++ rest) = (sectionsFrom left rest).modifyHead (lines ++ ·)

/-- A passage that stays in one section. -/
structure Inner (due left : List Char) (lines : List String) : Prop
    extends Passage due left lines where
  uncut : Uncut (due.count '}') (left.count '}') lines

theorem isBlankLine_of_ends {line : String} (h : Ends line) : isBlankLine line = false := by
  obtain ⟨front, c, ht, hc⟩ := ends_iff.mp h
  simp [isBlankLine, ht, hc]

theorem mayFollow_of_visible {line next : String} (hl : isBlankLine line = false)
    (hn : isBlankLine next = false) : MayFollow line next := by
  constructor <;> simp [hl, hn]

namespace Passage
variable {due middle left : List Char} {front back : List String}

theorem nil : Passage due due [] where
  brackets := rfl
  unbroken := by simp
  trimmed := by simp
  spaced := .nil
  first := by simp
  last := by simp

theorem line {line : String} (hu : Unbroken line) (he : Ends line)
    (hb : pending due line.toList = some left) : Passage due left [line] where
  brackets := by
    rw [List.flatMap_singleton, Fragment.ended, pending_append, hb]
    rfl
  unbroken := List.forall_mem_singleton.mpr hu
  trimmed := by
    obtain ⟨front, c, ht, hc⟩ := ends_iff.mp he
    simp [ht, hc]
  spaced := .singleton _
  first := by simp [isBlankLine_of_ends he]
  last := by simp [isBlankLine_of_ends he]

theorem append (hf : Passage due middle front) (hb : Passage middle left back) :
    Passage due left (front ++ back) where
  brackets := by
    rw [List.flatMap_append, pending_append, hf.brackets, Option.bind_some, hb.brackets]
  unbroken := List.forall_mem_append.mpr ⟨hf.unbroken, hb.unbroken⟩
  trimmed := List.forall_mem_append.mpr ⟨hf.trimmed, hb.trimmed⟩
  spaced := hf.spaced.append hb.spaced fun line hl next hn =>
    mayFollow_of_visible (hf.last line hl) (hb.first next hn)
  first line hl := by
    rw [List.head?_append, Option.mem_def, Option.or_eq_some_iff] at hl
    rcases hl with hl | ⟨_, hl⟩
    · exact hf.first line hl
    · exact hb.first line hl
  last line hl := by
    rw [List.getLast?_append, Option.mem_def, Option.or_eq_some_iff] at hl
    rcases hl with hl | ⟨_, hl⟩
    · exact hb.last line hl
    · exact hf.last line hl

/-- A blank line between passages, the first of which does not end by opening something while the
second does not begin by closing. -/
theorem gap (hf : Passage due middle front) (hb : Passage middle left back) (hfront : front ≠ [])
    (hback : back ≠ [])
    (hopened : ∀ line ∈ front.getLast?, line.toList.getLast? ∉ [some '{', some '('])
    (hclosed : ∀ line ∈ back.head?,
      line.toList.find? (!isBlank ·) ∉ [some '}', some ')']) :
    Passage due left (front ++ "" :: back) where
  brackets := by
    rw [List.flatMap_append, pending_append, hf.brackets, Option.bind_some, List.flatMap_cons,
      pending_append]
    exact hb.brackets
  unbroken := List.forall_mem_append.mpr
    ⟨hf.unbroken, List.forall_mem_cons.mpr ⟨by decide, hb.unbroken⟩⟩
  trimmed := List.forall_mem_append.mpr
    ⟨hf.trimmed, List.forall_mem_cons.mpr ⟨by decide, hb.trimmed⟩⟩
  spaced := by
    have hbefore : ∀ line ∈ front.getLast?, MayFollow line "" := fun line hl =>
      ⟨fun _ => hf.last line hl, fun _ => hopened line hl, by simp [hf.last line hl]⟩
    have hafter : ∀ line ∈ back.head?, MayFollow "" line := fun line hl =>
      ⟨by simp [hb.first line hl], by simp [hb.first line hl], fun _ => hclosed line hl⟩
    refine hf.spaced.append (List.isChain_cons.mpr ⟨hafter, hb.spaced⟩) ?_
    simpa using hbefore
  first line hl := by
    rw [List.head?_append_of_ne_nil _ hfront] at hl
    exact hf.first line hl
  last line hl := by
    rw [← List.singleton_append, ← List.append_assoc,
      List.getLast?_append_of_ne_nil _ hback] at hl
    exact hb.last line hl

/-- The last line has something to see at its end. -/
theorem ending {lines : List String} (h : Passage due left lines) (hne : lines ≠ []) :
    ∃ front c, lines.flatMap Fragment.ended = front ++ [c, '\n'] ∧ isBlank c = false := by
  obtain ⟨init, last, rfl⟩ := (List.eq_nil_or_concat lines).resolve_left hne
  rw [List.concat_eq_append] at h ⊢
  have hvisible : isBlankLine last = false := h.last last (by simp)
  have htrimmed := h.trimmed last (by simp)
  rcases hl : last.toList.getLast? with _ | c
  · rw [List.getLast?_eq_none_iff] at hl
    simp [isBlankLine, hl] at hvisible
  · obtain ⟨front, ht⟩ := List.getLast?_eq_some_iff.mp hl
    refine ⟨init.flatMap Fragment.ended ++ front, c, ?_, by simpa [hl] using htrimmed⟩
    rw [List.flatMap_append, List.flatMap_singleton, Fragment.ended, ht]
    simp

end Passage

namespace Inner
variable {due middle left : List Char} {front back : List String}

theorem nil : Inner due due [] where
  toPassage := .nil
  uncut rest := (congrFun List.modifyHead_id (sectionsFrom (due.count '}') rest)).symm

theorem line {line : String} (hu : Unbroken line) (he : Ends line)
    (hb : pending due line.toList = some left) : Inner due left [line] where
  toPassage := .line hu he hb
  uncut rest := by
    have hcount := count_pending hb
    have hdepth : due.count '}' + line.toList.count '{' - line.toList.count '}' =
        left.count '}' := by omega
    rw [List.singleton_append, sectionsFrom, if_neg (by simp [isBlankLine_of_ends he]), hdepth]
    rfl

theorem append (hf : Inner due middle front) (hb : Inner middle left back) :
    Inner due left (front ++ back) where
  toPassage := hf.toPassage.append hb.toPassage
  uncut rest := by
    rw [List.append_assoc, hf.uncut, hb.uncut, List.modifyHead_modifyHead]
    simp [Function.comp_def]

end Inner

/-- Lines of one section that leave all brackets as they are. -/
structure Paragraph (lines : List String) : Prop where
  nonempty : lines ≠ []
  inner : ∀ due, Inner due due lines

namespace Paragraph
variable {lines : List String} (h : Paragraph lines)
include h

/-- What the last line opened would stay open. -/
theorem last_opens_nothing :
    ∀ line ∈ lines.getLast?, line.toList.getLast? ∉ [some '{', some '('] := by
  intro line hl hm
  obtain ⟨init, rfl⟩ := List.getLast?_eq_some_iff.mp hl
  obtain ⟨c, hc, hlast⟩ :=
    List.mem_map.mp (show line.toList.getLast? ∈ ['{', '('].map some from hm)
  obtain ⟨front, ht⟩ := List.getLast?_eq_some_iff.mp hlast.symm
  have hbrackets := (h.inner []).brackets
  rw [List.flatMap_append, List.flatMap_singleton, Fragment.ended, ht, List.append_assoc,
    ← List.append_assoc, pending_append, Option.bind_eq_some_iff] at hbrackets
  obtain ⟨due, _, hdue⟩ := hbrackets
  simp only [List.mem_cons, List.not_mem_nil, or_false] at hc
  rcases hc with rfl | rfl <;> simp [pending] at hdue

/-- There is nothing that the first line could close. -/
theorem first_closes_nothing :
    ∀ line ∈ lines.head?, line.toList.find? (!isBlank ·) ∉ [some '}', some ')'] := by
  intro line hl hm
  obtain ⟨rest, rfl⟩ := List.head?_eq_some_iff.mp hl
  obtain ⟨c, hc, hfirst⟩ :=
    List.mem_map.mp (show line.toList.find? (!isBlank ·) ∈ ['}', ')'].map some from hm)
  obtain ⟨_, margin, more, ht, hmargin⟩ := List.find?_eq_some_iff_append.mp hfirst.symm
  have hneutral : Balanced margin := Balanced.of_notMem fun d hd hbracket => by
    have hblank : isBlank d = true := by simpa using hmargin d hd
    simp only [List.mem_cons, List.not_mem_nil, or_false] at hbracket
    rcases hbracket with rfl | rfl | rfl | rfl <;> exact absurd hblank (by decide)
  have hbrackets := (h.inner []).brackets
  rw [List.flatMap_cons, Fragment.ended, ht, List.append_assoc, List.append_assoc, pending_append,
    hneutral.pending_eq, Option.bind_some, List.cons_append] at hbrackets
  simp only [List.mem_cons, List.not_mem_nil, or_false] at hc
  rcases hc with rfl | rfl <;> simp [pending] at hbrackets

end Paragraph

theorem Paragraph.uncut {lines : List String} (h : Paragraph lines) (depth : Nat) :
    Uncut depth depth lines := by
  have hinner := (h.inner (List.replicate depth '}')).uncut
  rwa [List.count_replicate_self] at hinner

theorem Paragraph.append {front back : List String} (hf : Paragraph front) (hb : Paragraph back) :
    Paragraph (front ++ back) :=
  ⟨by simp [hf.nonempty], fun due => (hf.inner due).append (hb.inner due)⟩

section
variable {groups : List (List String)} (h : ∀ group ∈ groups, Paragraph group)
include h

/-- A paragraph leaves no bracket open and closes none, so a blank line fits on either side. -/
theorem passage_intercalate (due : List Char) : Passage due due ([""].intercalate groups) := by
  induction groups with
  | nil => exact .nil
  | cons first rest ih =>
    obtain ⟨hfirst, hrest⟩ := List.forall_mem_cons.mp h
    rcases rest with _ | ⟨second, more⟩
    · simpa using (hfirst.inner due).toPassage
    · have hsecond := hrest second List.mem_cons_self
      obtain ⟨line, lines, rfl⟩ := List.exists_cons_of_ne_nil hsecond.nonempty
      have hhead : ([""].intercalate ((line :: lines) :: more)).head? = some line := by
        cases more <;> simp
      rw [List.intercalate_cons_cons, List.append_assoc, List.singleton_append]
      refine (hfirst.inner due).toPassage.gap (ih hrest) hfirst.nonempty ?_
        hfirst.last_opens_nothing ?_
      · intro he
        simp [he] at hhead
      · rw [hhead]
        exact hsecond.first_closes_nothing

/-- Within braces, blank lines divide nothing. -/
theorem uncut_intercalate {depth : Nat} (hd : depth ≠ 0) :
    Uncut depth depth ([""].intercalate groups) := by
  induction groups with
  | nil => exact fun rest => (congrFun List.modifyHead_id (sectionsFrom depth rest)).symm
  | cons first rest ih =>
    obtain ⟨hfirst, hrest⟩ := List.forall_mem_cons.mp h
    rcases rest with _ | ⟨second, more⟩
    · simpa using hfirst.uncut depth
    · intro after
      have hblank : ∀ lines, sectionsFrom depth ("" :: lines) =
          (sectionsFrom depth lines).modifyHead ("" :: ·) := by
        intro lines
        rw [sectionsFrom, if_neg (by simp [hd])]
        rfl
      rw [List.intercalate_cons_cons, List.append_assoc, List.append_assoc, List.singleton_append,
        hfirst.uncut, hblank, ih hrest, List.modifyHead_modifyHead, List.modifyHead_modifyHead]
      simp [Function.comp_def]

/-- Outside of all braces they divide one paragraph from the next. -/
theorem sectionsFrom_intercalate (hne : groups ≠ []) :
    sectionsFrom 0 ([""].intercalate groups) = groups := by
  induction groups with
  | nil => exact absurd rfl hne
  | cons first rest ih =>
    obtain ⟨hfirst, hrest⟩ := List.forall_mem_cons.mp h
    rcases rest with _ | ⟨second, more⟩
    · have hsingle := hfirst.uncut 0 []
      simpa [sectionsFrom] using hsingle
    · have hblank : ∀ lines, sectionsFrom 0 ("" :: lines) = [] :: sectionsFrom 0 lines := by
        intro lines
        rw [sectionsFrom, if_pos (by simp [isBlankLine])]
      rw [List.intercalate_cons_cons, List.append_assoc, List.singleton_append, hfirst.uncut,
        hblank, ih hrest (by simp), List.modifyHead_cons, List.append_nil]

theorem inner_intercalate {due : List Char} (hd : due.count '}' ≠ 0) :
    Inner due due ([""].intercalate groups) :=
  ⟨passage_intercalate h due, uncut_intercalate h hd⟩

end

end Text

namespace Fragment
open Text

/-- Fragments that lead from one stack of brackets to another, at every depth. -/
def Spans (due left : List Char) (fragments : List Fragment) : Prop :=
  ∀ depth, Inner due left (allLines depth fragments)

/-- Fragments that lay out as a paragraph at every depth. -/
def Tidy (fragments : List Fragment) : Prop := ∀ depth, Paragraph (allLines depth fragments)

/-- A margin ends before the first visible character and holds no brackets. -/
theorem pending_lineAt (due : List Char) (depth : Nat) (text : String) :
    pending due (lineAt depth text).toList = pending due text.toList := by
  have hmargin : Balanced (String.join (List.replicate depth Page.fourSpaces)).toList := by
    refine Balanced.of_notMem fun c hc hbracket => ?_
    have hline : c ∈ (lineAt depth "").toList := by simpa [lineAt] using hc
    have hspace : c = ' ' := (mem_lineAt hline).resolve_right (by simp)
    subst hspace
    exact absurd hbracket (by decide)
  rw [lineAt, String.toList_append, pending_append, hmargin.pending_eq, Option.bind_some]

namespace Spans
variable {due middle other left : List Char}

theorem nil : Spans due due [] := fun _ => .nil

theorem line {text : String} (hu : Unbroken text) (he : Ends text)
    (hb : pending due text.toList = some left) : Spans due left [.line text] := fun depth => by
  rw [allLines_line]
  exact .line (unbroken_lineAt hu) (he.prepend _) ((pending_lineAt due depth text).trans hb)

theorem append {front back : List Fragment} (hf : Spans due middle front)
    (hb : Spans middle left back) : Spans due left (front ++ back) := fun depth => by
  rw [allLines_append]
  exact (hf depth).append (hb depth)

theorem nested {body : List Fragment} (h : Spans due left body) :
    Spans due left [.nested body] := fun depth => by
  rw [allLines_nested]
  exact h (depth + 1)

theorem block {opening closing : String} {body : List Fragment}
    (ho : Spans due middle [.line opening]) (hb : Spans middle other body)
    (hc : Spans other left [.line closing]) :
    Spans due left [.block opening body closing] := fun depth => by
  rw [allLines_parts]
  exact ((ho.append hb.nested).append hc) depth

/-- A phrase before something that opens or closes a bracket. -/
theorem after {front mark : String} (h : Phrase front) (hm : Unbroken mark ∧ Ends mark)
    (hb : pending due mark.toList = some left) : Spans due left [.line (front ++ mark)] := by
  refine line (unbroken_append.mpr ⟨h.1.1, hm.1⟩) (hm.2.prepend front) ?_
  rw [String.toList_append, pending_append, h.1.2.pending_eq, Option.bind_some, hb]

end Spans

namespace Tidy
variable {front back : List Fragment}

theorem spans (h : Tidy front) (due : List Char) : Spans due due front :=
  fun depth => (h depth).inner due

theorem append (hf : Tidy front) (hb : Tidy back) : Tidy (front ++ back) := fun depth => by
  rw [allLines_append]
  exact (hf depth).append (hb depth)

theorem line {text : String} (h : Phrase text) : Tidy [.line text] := fun depth =>
  ⟨by simp [allLines_line], fun due => Spans.line h.1.1 h.2.2 (h.1.2.pending_eq due) depth⟩

theorem nested {body : List Fragment} (h : Tidy body) : Tidy [.nested body] := fun depth => by
  rw [allLines_nested]
  exact h (depth + 1)

theorem block {opening closing : String} {body : List Fragment}
    (h : ∀ due, Spans due due [.block opening body closing]) :
    Tidy [.block opening body closing] := fun depth =>
  ⟨by simp [allLines, linesOf], fun due => h due depth⟩

theorem flatMap {α : Type} {items : List α} {fragments : α → List Fragment} (hne : items ≠ [])
    (h : ∀ item ∈ items, Tidy (fragments item)) : Tidy (items.flatMap fragments) := by
  induction items with
  | nil => exact absurd rfl hne
  | cons item rest ih =>
    obtain ⟨hitem, hrest⟩ := List.forall_mem_cons.mp h
    rcases rest with _ | ⟨next, more⟩
    · simpa using hitem
    · exact hitem.append (ih (by simp) hrest)

theorem ne_nil (h : Tidy front) : front ≠ [] := by
  rintro rfl
  exact (h 0).nonempty rfl

end Tidy

/-- Lines that may also be none. -/
theorem spans_lines {α : Type} {items : List α} {text : α → String}
    (h : ∀ item ∈ items, Phrase (text item)) (due : List Char) :
    Spans due due (items.map fun item => .line (text item)) := by
  rw [← List.flatMap_pure_eq_map]
  by_cases hne : items = []
  · rw [hne]
    exact .nil
  · exact (Tidy.flatMap hne fun item hi => Tidy.line (h item hi)).spans due

/-- Documentation stands in a line of its own. -/
theorem tidy_docs {text : Option String} (hd : ∀ line ∈ text, Inert line)
    {fragments : List Fragment} (hf : Tidy fragments) : Tidy (docs text ++ fragments) := by
  rcases text with _ | text
  · exact hf
  · have hinert : Inert ("/** " ++ text ++ " */") :=
      (Inert.append (by decide) (hd text rfl)).append (by decide)
    have hstarts : Starts ("/** " ++ text ++ " */") :=
      Starts.append (Starts.append (by decide) text) " */"
    have hends : Ends ("/** " ++ text ++ " */") := Ends.prepend (by decide) _
    have hdoc : Tidy [.doc text] := fun depth => Tidy.line ⟨hinert, hstarts, hends⟩ depth
    exact hdoc.append hf

/-- Separated groups are the paragraphs that are not empty. -/
theorem allLines_separated (depth : Nat) (groups : List (List Fragment)) :
    allLines depth (separated groups) =
      [""].intercalate ((groups.filter (!·.isEmpty)).map (allLines depth)) := by
  rw [separated]
  induction groups.filter (!·.isEmpty) with
  | nil => rfl
  | cons first rest ih =>
    cases rest with
    | nil => simp
    | cons second more =>
      rw [List.intercalate_cons_cons, allLines_append, allLines_append, ih]
      simp [allLines, linesOf, List.intercalate_cons_cons]

section
variable {groups : List (List Fragment)} (h : ∀ group ∈ groups, group ≠ [] → Tidy group)
include h

theorem paragraphs_separated (depth : Nat) :
    ∀ lines ∈ (groups.filter (!·.isEmpty)).map (allLines depth), Paragraph lines := by
  rw [List.forall_mem_map]
  intro group hg
  obtain ⟨hm, hne⟩ := List.mem_filter.mp hg
  exact h group hm (by simpa using hne) depth

/-- Separated groups are the body of a block between braces. -/
theorem spans_separated {due : List Char} (hd : due.count '}' ≠ 0) :
    Spans due due (separated groups) := fun depth => by
  rw [allLines_separated]
  exact inner_intercalate (paragraphs_separated h depth) hd

end

/-- A page of tidy groups is well laid out, and its sections are these groups. -/
theorem laidOut_separated {groups : List (List Fragment)} (hne : groups ≠ [])
    (h : ∀ group ∈ groups, Tidy group) :
    LaidOut (textOf (separated groups)) ∧
      lines (textOf (separated groups)) = [""].intercalate (groups.map (allLines 0)) ∧
      sections (textOf (separated groups)) = groups.map (allLines 0) := by
  have hfilter : groups.filter (!·.isEmpty) = groups :=
    List.filter_eq_self.mpr fun group hg => by simpa using (h group hg).ne_nil
  have hall : allLines 0 (separated groups) = [""].intercalate (groups.map (allLines 0)) := by
    rw [allLines_separated, hfilter]
  have hparagraphs : ∀ lines ∈ groups.map (allLines 0), Paragraph lines :=
    List.forall_mem_map.mpr fun group hg => h group hg 0
  have hpassage := passage_intercalate hparagraphs []
  have hlines : lines (textOf (separated groups)) =
      [""].intercalate (groups.map (allLines 0)) := by
    rw [← hall] at hpassage ⊢
    exact lines_textOf hpassage.unbroken
  have hwhole : (textOf (separated groups)).toList =
      ([""].intercalate (groups.map (allLines 0))).flatMap ended := by
    rw [textOf_toList, printedAll_eq, hall]
  refine ⟨⟨?_, ?_, ?_, ?_, ?_⟩, hlines, ?_⟩
  · rw [hwhole]
    exact hpassage.brackets
  · rw [hlines, hwhole]
  · rw [hlines]
    exact hpassage.trimmed
  · rw [hlines]
    exact hpassage.spaced
  · rw [hwhole]
    refine hpassage.ending fun he => ?_
    obtain ⟨first, rest, rfl⟩ := List.exists_cons_of_ne_nil hne
    have hfirst := (h first List.mem_cons_self 0).nonempty
    cases rest <;> simp_all
  · rw [sections, hlines]
    exact sectionsFrom_intercalate hparagraphs (by simpa using hne)

end Fragment
end StyleFamily
