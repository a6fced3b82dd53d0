import StyleFamily.Proofs.Kotlin.UnitLayout
import StyleFamily.Proofs.Text.PlainLines

/-!
# How the lines of a unit begin

A line of a declaration has a margin or begins with a word or a sign of the language, whatever the
names in it are. So no line of a unit can be taken for a divider of a report, and none below the
imports for an import.
-/
namespace StyleFamily
namespace Kotlin
open Text Fragment

/-- What the lines of declarations begin with: a margin, the opening of documentation or of an
annotation, a keyword, a closing bracket. -/
def lineHeads : List String :=
  [" ", "/** ", "@", "interface ", "private ", "class ", "data ", "val ", ")", "\x7d"]

/-- A line that is empty or begins with one of them. -/
def Headed (line : String) : Prop := line = "" ∨ ∃ head ∈ lineHeads, head.toList <+: line.toList

theorem begins_append (front rest : String) : front.toList <+: (front ++ rest).toList := by
  rw [String.toList_append]
  exact List.prefix_append _ _

theorem headed_after {head : String} (h : head ∈ lineHeads) (rest : String) :
    Headed (head ++ rest) :=
  .inr ⟨head, h, begins_append head rest⟩

theorem Headed.beginsPlain {line : String} (h : Headed line) : BeginsPlain line := by
  rcases h with rfl | ⟨head, hm, rest, hline⟩
  · decide
  · have hplain : ∀ head ∈ lineHeads, head.toList.head?.any (·.toNat < 128) = true := by decide
    have htext : line = head ++ String.ofList rest := by
      rw [← String.toList_inj, String.toList_append, String.toList_ofList, hline]
    rw [htext]
    exact beginsPlain_after (hplain head hm) _

/-- A line that opens as imports do. -/
def opensImport (line : String) : Bool := "import ".toList.isPrefixOf line.toList

theorem opensImport_after (rest : String) : opensImport ("import " ++ rest) = true :=
  List.isPrefixOf_iff_prefix.mpr (begins_append "import " rest)

/-- One of two openings of a line goes on as the other. -/
theorem not_opensImport {head line : String} (hl : head.toList <+: line.toList)
    (hh : ¬(head.toList <+: "import ".toList ∨ "import ".toList <+: head.toList)) :
    opensImport line = false :=
  Bool.eq_false_iff.mpr fun h =>
    hh (List.prefix_or_prefix_of_prefix hl (List.isPrefixOf_iff_prefix.mp h))

theorem Headed.not_opensImport {line : String} (h : Headed line) : opensImport line = false := by
  rcases h with rfl | ⟨head, hm, hline⟩
  · decide
  · have hheads : ∀ head ∈ lineHeads,
        ¬(head.toList <+: "import ".toList ∨ "import ".toList <+: head.toList) := by decide
    exact Kotlin.not_opensImport hline (hheads head hm)

/-- Fragments whose lines all have such a beginning at the top level. -/
def HeadedLines (fragments : List Fragment) : Prop :=
  ∀ line ∈ allLines 0 fragments, Headed line

namespace HeadedLines
variable {front back body : List Fragment} {opening closing : String}

theorem append (hf : HeadedLines front) (hb : HeadedLines back) : HeadedLines (front ++ back) := by
  rw [HeadedLines, allLines_append]
  exact List.forall_mem_append.mpr ⟨hf, hb⟩

theorem cons {first : Fragment} {rest : List Fragment} (hf : HeadedLines [first])
    (hr : HeadedLines rest) : HeadedLines (first :: rest) :=
  hf.append hr

theorem line {text : String} (h : Headed text) : HeadedLines [.line text] := by
  rw [HeadedLines, allLines_line, lineAt_zero]
  exact List.forall_mem_singleton.mpr h

/-- A margin is made of spaces. -/
theorem nested : HeadedLines [.nested body] := by
  rw [HeadedLines, allLines_nested]
  intro line hl
  rcases hchars : line.toList with _ | ⟨c, more⟩
  · exact .inl (String.toList_eq_nil_iff.mp hchars)
  · obtain rfl : c = ' ' := head_allLines 0 body line hl c (by rw [hchars]; rfl)
    refine .inr ⟨" ", by decide, ?_⟩
    rw [hchars]
    exact List.prefix_append [' '] more

theorem block (ho : Headed opening) (hc : Headed closing) :
    HeadedLines [.block opening body closing] := by
  rw [HeadedLines, allLines_parts]
  exact ((line ho).append nested).append (line hc)

theorem docs (text : Option String) : HeadedLines (Fragment.docs text) := by
  rcases text with _ | text
  · exact List.forall_mem_nil _
  · have hdoc : allLines 0 (Fragment.docs (some text)) =
        allLines 0 [.line ("/** " ++ text ++ " */")] := rfl
    rw [HeadedLines, hdoc, String.append_assoc]
    exact line (headed_after (by decide) _)

theorem braced (h : Headed opening) : HeadedLines [Fragment.braced opening body] :=
  block h (headed_after (by decide : "\x7d" ∈ lineHeads) "")

theorem withBody {header : String} (h : ∀ rest, Headed (header ++ rest)) :
    HeadedLines [ClassNode.withBody header body] := by
  have hheader := h ""
  rw [String.append_empty] at hheader
  rw [ClassNode.withBody]
  split
  · exact line hheader
  · exact braced (h _)

end HeadedLines

theorem headedLines_interface (i : InterfaceNode) : HeadedLines i.fragments := by
  have hannotations : HeadedLines (i.annotations.map fun name => .line ("@" ++ name)) := by
    rw [HeadedLines, allLines_map_line]
    refine List.forall_mem_map.mpr fun name _ => ?_
    rw [lineAt_zero]
    exact headed_after (by decide) name
  rw [InterfaceNode.fragments, String.append_assoc, String.append_assoc]
  exact ((HeadedLines.docs i.doc).append hannotations).append
    (.braced (headed_after (by decide) _))

/-- The heading of a class begins with its modifier or its keyword. -/
theorem headed_heading (name : String) (flavor : ClassFlavor) (isPrivate : Bool) (rest : String) :
    Headed (ClassNode.heading name flavor isPrivate ++ rest) := by
  have hkeyword : ∃ head ∈ lineHeads, ∃ more, flavor.keyword ++ " " = head ++ more := by
    cases flavor with
    | plain => exact ⟨"class ", by decide, "", by decide⟩
    | data => exact ⟨"data ", by decide, "class ", by decide⟩
    | dataObject => exact ⟨"data ", by decide, "object ", by decide⟩
  obtain ⟨head, hm, more, hwords⟩ := hkeyword
  cases isPrivate with
  | false =>
    rw [ClassNode.heading, if_neg (by decide), String.empty_append, hwords, String.append_assoc,
      String.append_assoc]
    exact headed_after hm _
  | true =>
    rw [ClassNode.heading, if_pos rfl, String.append_assoc, String.append_assoc,
      String.append_assoc]
    exact headed_after (by decide) _

theorem headedLines_class (node : ClassNode) : HeadedLines node.fragments := by
  obtain ⟨name, flavor, doc, isPrivate, constructor, supertypes, properties, functions, nested⟩ :=
    node
  rw [ClassNode.fragments, ClassNode.layout]
  refine (HeadedLines.docs doc).append ?_
  split
  · refine .withBody fun rest => ?_
    rw [String.append_assoc]
    exact headed_heading _ _ _ _
  · refine (HeadedLines.line (headed_heading _ _ _ "(")).cons (HeadedLines.nested.cons
      (.withBody fun rest => ?_))
    rw [String.append_assoc]
    exact headed_after (by decide) _

theorem headedLines_local (l : LocalNode) : HeadedLines l.fragments := by
  rw [LocalNode.fragments, String.append_assoc, String.append_assoc, String.append_assoc]
  exact (HeadedLines.docs l.doc).append
    ((HeadedLines.line (headed_after (by decide) _)).cons .nested)

theorem headedLines_declaration (declaration : Declaration) :
    HeadedLines (declarationFragments declaration) := by
  cases declaration with
  | ofInterface spec => exact headedLines_interface (interfaceNode spec)
  | ofClass spec => exact headedLines_class (classNode spec)

theorem forall_mem_intercalate {α : Type} {p : α → Prop} {separator : List α}
    (hs : ∀ x ∈ separator, p x) {groups : List (List α)} (hg : ∀ group ∈ groups, ∀ x ∈ group, p x) :
    ∀ x ∈ separator.intercalate groups, p x := by
  induction groups with
  | nil => exact List.forall_mem_nil _
  | cons first rest ih =>
    obtain ⟨hfirst, hrest⟩ := List.forall_mem_cons.mp hg
    rcases rest with _ | ⟨second, more⟩
    · simpa using hfirst
    · rw [List.intercalate_cons_cons, List.forall_mem_append, List.forall_mem_append]
      exact ⟨⟨hfirst, hs⟩, ih hrest⟩

/-- No line of a unit begins with a sign beyond ASCII. -/
theorem beginsPlain_unitText {schema : Schema} (hw : schema.WellNamed) {package : String}
    (hp : packageFault? package = none) :
    ∀ line ∈ lines (unitText (assemble schema) package), BeginsPlain line := by
  obtain ⟨_, hlines, hsections⟩ := sections_unitText hw hp
  have himport : ∀ line ∈ Imports.lines ⟨unitSymbols (assemble schema)⟩ package,
      BeginsPlain line := by
    intro line hl
    obtain ⟨symbol, _, _, rfl⟩ := mem_lines.mp hl
    exact beginsPlain_after (by decide) _
  rw [hlines, hsections]
  refine forall_mem_intercalate (by decide) ?_
  simp only [List.forall_mem_cons, List.forall_mem_map]
  exact ⟨by decide, ⟨beginsPlain_after (by decide) _, List.forall_mem_nil _⟩, himport,
    fun line hl => (headedLines_local _ line hl).beginsPlain,
    fun declaration _ line hl => (headedLines_declaration declaration line hl).beginsPlain⟩

end Kotlin
end StyleFamily
