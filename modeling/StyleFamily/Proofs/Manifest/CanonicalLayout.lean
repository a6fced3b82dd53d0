import StyleFamily.Proofs.Layout.Paragraph
import StyleFamily.Proofs.Manifest.Search

/-!
# Lines of a manifest

A manifest written line by line: tables, values, lists of supertypes and blank lines. An assignment
of a name stands in such a text exactly where a line assigns this text to a key, and between two
supertypes where the first of them ends in a sign of assignment. A search for a name therefore comes
to the first of these entries with its text.
-/
namespace StyleFamily.Canonical
open Quotation

inductive Table
  | output
  | scanner
  | declaration
  | parameter
deriving DecidableEq

def Table.header : Table → String
  | .output => "[output]"
  | .scanner => "[scanner]"
  | .declaration => "[[declaration]]"
  | .parameter => "[[declaration.param]]"

/-- What is written between two quotes after a sign of assignment. -/
inductive Position
  | package
  | directory
  | owner
  | suffix
  /-- The name of a declaration. -/
  | declaration (i : Nat)
  /-- The name of a parameter. -/
  | parameter (i j : Nat)
  /-- The type of a parameter. -/
  | type (i j : Nat)
  /-- What stands after a supertype and before the next one. -/
  | separator (i k : Nat)
deriving DecidableEq

/-- The key that begins the line of a place. -/
def Position.key : Position → String
  | .package => "package"
  | .directory => "dir"
  | .owner => "owner"
  | .suffix => "suffix"
  | .declaration _ | .parameter _ _ => "name"
  | .type _ _ => "type"
  | .separator _ _ => "supertypes"

inductive ManifestLine
  | blank
  | table (title : Table)
  | value (place : Position) (text : String)
  /-- The supertypes of the declaration at an index. -/
  | supertypes (i : Nat) (texts : List String)
deriving DecidableEq

def ManifestLine.isBlank : ManifestLine → Bool
  | .blank => true
  | _ => false

/-- What follows an item of a list. -/
def following : List String → String
  | [] => "]"
  | text :: rest => ", \"" ++ text ++ "\"" ++ following rest

def listed : List String → String
  | [] => "[]"
  | text :: rest => "[\"" ++ text ++ "\"" ++ following rest

def ManifestLine.text : ManifestLine → String
  | .blank => ""
  | .table title => title.header
  | .value place text => place.key ++ " = \"" ++ text ++ "\""
  | .supertypes _ texts => "supertypes = " ++ listed texts

/-- The text that lines make up. -/
def source (lines : List ManifestLine) : List Char :=
  lines.flatMap fun line => line.text.toList ++ ['\n']

/-- A text without quotes, backslashes and control characters. -/
def Plain (text : String) : Prop :=
  ∀ c ∈ text.toList, c ≠ '"' ∧ c ≠ '\\' ∧ 0x20 ≤ c.toNat ∧ c.toNat ≠ 0x7F

instance (text : String) : Decidable (Plain text) :=
  List.decidableBAll _ text.toList

theorem quote_notMem_of_plain {text : String} (h : Plain text) : '"' ∉ text.toList := fun hm =>
  (h _ hm).1 rfl

theorem inline_of_plain {text : String} (h : Plain text) : Text.Inline text := fun hm =>
  absurd (h _ hm).2.2.1 (by decide)

def ManifestLine.Plain : ManifestLine → Prop
  | .blank | .table _ => True
  | .value _ text => Canonical.Plain text
  | .supertypes _ texts => ∀ text ∈ texts, Canonical.Plain text

instance : (line : ManifestLine) → Decidable line.Plain
  | .blank | .table _ => inferInstanceAs (Decidable True)
  | .value _ text => inferInstanceAs (Decidable (Canonical.Plain text))
  | .supertypes _ texts => List.decidableBAll _ texts

/-- A text between quotes after a sign of assignment, and where it stands. -/
structure LineEntry where
  place : Position
  text : String
  span : Span

/-- The sign that stands between a key and its value. -/
def sign : List Char := " = ".toList

/-- The entries after an item of a list, the text after it starting at an offset: a separator looks
like a value if the item before it ends in a sign. -/
def separators (i k start : Nat) (before : String) : List String → List LineEntry
  | [] => []
  | text :: rest =>
    (if sign <:+ before.toList then [⟨.separator i k, ", ", ⟨start, 2⟩⟩] else []) ++
      separators i (k + 1) (start + byteLength text.toList + 4) text rest

/-- The entries of a line that starts at an offset. -/
def ManifestLine.entries (start : Nat) : ManifestLine → List LineEntry
  | .value place text =>
    [⟨place, text, ⟨start + byteLength place.key.toList + 4, byteLength text.toList⟩⟩]
  | .supertypes i (text :: rest) =>
    separators i 0 (start + byteLength text.toList + 16) text rest
  | .blank | .table _ | .supertypes _ [] => []

/-- The entries of lines of which the first starts at an offset. -/
def entries (start : Nat) : List ManifestLine → List LineEntry
  | [] => []
  | line :: rest =>
    line.entries start ++ entries (start + byteLength line.text.toList + 1) rest

/-- The sign and the quoted name after it. -/
def assignment (name : List Char) : List Char := sign ++ '"' :: (name ++ ['"'])

/-- A name between quotes at the beginning of a text. -/
theorem quoted_prefix_iff {name text rest : List Char} (hn : '"' ∉ name) (ht : '"' ∉ text) :
    name ++ ['"'] <+: text ++ '"' :: rest ↔ name = text := by
  constructor
  · rintro ⟨back, h⟩
    rw [List.append_assoc, List.singleton_append] at h
    exact (append_separator_inj hn ht h).1
  · rintro rfl
    exact ⟨rest, by simp⟩

/-- Where an assignment stands in a text with a quote: around this quote or after it. -/
theorem assignment_standsAt_iff {name front rest : List Char} {n : Nat} (hf : '"' ∉ front) :
    StandsAt (assignment name) (front ++ '"' :: rest) n ↔
      (∃ key, front = key ++ sign ∧ byteLength key = n ∧ name ++ ['"'] <+: rest) ∨
      ∃ m, n = byteLength front + 1 + m ∧ StandsAt (assignment name) rest m := by
  have hsign : '"' ∉ sign := by decide
  constructor
  · rintro ⟨before, back, htext, rfl⟩
    have htext' : front ++ '"' :: rest =
        (before ++ sign) ++ '"' :: (name ++ ['"'] ++ back) := by
      rw [htext, assignment]
      simp
    by_cases hb : '"' ∈ before
    · obtain ⟨first, more, rfl, hfirst⟩ := List.eq_append_cons_of_mem hb
      have hsplit : front ++ '"' :: rest =
          first ++ '"' :: (more ++ sign ++ '"' :: (name ++ ['"'] ++ back)) := by
        rw [htext']
        simp
      obtain ⟨rfl, rfl⟩ := append_separator_inj hf hfirst hsplit
      refine .inr ⟨byteLength more, ?_, more, back, by simp [assignment], rfl⟩
      rw [byteLength_append, byteLength_cons]
      have hquote : '"'.utf8Size = 1 := rfl
      omega
    · obtain ⟨rfl, rfl⟩ := append_separator_inj hf (by simp [hb, hsign]) htext'
      exact .inl ⟨before, rfl, rfl, List.prefix_append _ _⟩
  · rintro (⟨key, rfl, rfl, back, rfl⟩ | ⟨m, rfl, before, back, rfl, rfl⟩)
    · exact ⟨key, back, by simp [assignment], rfl⟩
    · refine ⟨front ++ '"' :: before, back, by simp, ?_⟩
      rw [byteLength_append, byteLength_cons]
      have hquote : '"'.utf8Size = 1 := rfl
      omega

theorem not_assignment_standsAt {name text : List Char} {n : Nat} (ht : '"' ∉ text) :
    ¬ StandsAt (assignment name) text n := by
  rintro ⟨before, back, rfl, _⟩
  exact ht (by simp [assignment])

variable {name : List Char}

/-- An entry after an item of a list starts after the sign it follows, stands in the list and spans
its text. -/
theorem bounds_of_mem_separators {i k start : Nat} {before : String} {texts : List String}
    {e : LineEntry} (h : e ∈ separators i k start before texts) :
    start + 3 ≤ e.span.offset + byteLength before.toList ∧
      e.span.stop ≤ start + byteLength (following texts).toList ∧
        e.span.length = byteLength e.text.toList := by
  induction texts generalizing k start before with
  | nil => cases h
  | cons text rest ih =>
    have hlength : byteLength (following (text :: rest)).toList =
        byteLength text.toList + byteLength (following rest).toList + 4 := by
      have hopening : byteLength ", \"".toList = 3 := rfl
      have hclosing : byteLength "\"".toList = 1 := rfl
      rw [following]
      simp only [String.toList_append, byteLength_append, hopening, hclosing]
      omega
    rw [separators, List.mem_append] at h
    rcases h with hfirst | hrest
    · split at hfirst
      · next hs =>
        obtain rfl := List.mem_singleton.mp hfirst
        obtain ⟨key, hkey⟩ := hs
        have hsign : byteLength sign = 3 := rfl
        rw [← hkey, byteLength_append, Span.stop]
        have hspan : byteLength ", ".toList = 2 := rfl
        exact ⟨by simp only; omega, by simp only; omega, hspan.symm⟩
      · cases hfirst
    · obtain ⟨hle, hstop, hspan⟩ := ih hrest
      exact ⟨by omega, by omega, hspan⟩

theorem pairwise_separators (i k start : Nat) (before : String) (texts : List String) :
    (separators i k start before texts).Pairwise
      fun e e' => e.span.stop + 4 ≤ e'.span.offset := by
  induction texts generalizing k start before with
  | nil => exact .nil
  | cons text rest ih =>
    rw [separators, List.pairwise_append]
    refine ⟨by split <;> simp, ih _ _ _, fun e he e' he' => ?_⟩
    have hle := (bounds_of_mem_separators he').1
    split at he
    · obtain rfl := List.mem_singleton.mp he
      simp only [Span.stop]
      omega
    · cases he

/-- An entry of a line has a sign and a quote before it, stands in the line and spans its text. -/
theorem ManifestLine.bounds_of_mem_entries {line : ManifestLine} {start : Nat} {e : LineEntry}
    (h : e ∈ line.entries start) :
    start + 4 ≤ e.span.offset ∧ e.span.stop ≤ start + byteLength line.text.toList ∧
      e.span.length = byteLength e.text.toList := by
  rcases line with _ | _ | ⟨place, text⟩ | ⟨i, _ | ⟨text, rest⟩⟩
  · cases h
  · cases h
  · obtain rfl := List.mem_singleton.mp h
    have hopening : byteLength " = \"".toList = 4 := rfl
    have hclosing : byteLength "\"".toList = 1 := rfl
    simp only [ManifestLine.text, Span.stop, String.toList_append, byteLength_append, hopening,
      hclosing]
    exact ⟨by omega, by omega, trivial⟩
  · cases h
  · obtain ⟨hle, hstop, hspan⟩ := bounds_of_mem_separators h
    have hopening : byteLength "supertypes = ".toList = 13 := rfl
    have hbracket : byteLength "[\"".toList = 2 := rfl
    have hclosing : byteLength "\"".toList = 1 := rfl
    simp only [ManifestLine.text, listed, String.toList_append, byteLength_append, hopening,
      hbracket, hclosing]
    exact ⟨by omega, by omega, hspan⟩

theorem bounds_of_mem_entries {lines : List ManifestLine} {start : Nat} {e : LineEntry}
    (h : e ∈ entries start lines) :
    start + 4 ≤ e.span.offset ∧ e.span.length = byteLength e.text.toList := by
  induction lines generalizing start with
  | nil => cases h
  | cons line rest ih =>
    rw [entries, List.mem_append] at h
    rcases h with hline | hrest
    · obtain ⟨hle, _, hspan⟩ := line.bounds_of_mem_entries hline
      exact ⟨hle, hspan⟩
    · obtain ⟨hle, hspan⟩ := ih hrest
      exact ⟨by omega, hspan⟩

/-- The entries stand one after another, with a sign and a quote between them. -/
theorem pairwise_entries (start : Nat) (lines : List ManifestLine) :
    (entries start lines).Pairwise fun e e' => e.span.stop + 4 ≤ e'.span.offset := by
  induction lines generalizing start with
  | nil => exact .nil
  | cons line rest ih =>
    rw [entries, List.pairwise_append]
    refine ⟨?_, ih _, fun e he e' he' => ?_⟩
    · rcases line with _ | _ | _ | ⟨i, _ | ⟨text, rest⟩⟩
      · exact .nil
      · exact .nil
      · exact List.pairwise_singleton _ _
      · exact .nil
      · exact pairwise_separators _ _ _ _ _
    · have hstop := (line.bounds_of_mem_entries he).2.1
      have hoffset := (bounds_of_mem_entries he').1
      omega

/-- An assignment stands after an item of a list exactly where an entry with the name is. -/
theorem assignment_standsAt_following (start : Nat) {i k n : Nat} {before : String}
    {texts : List String} (hn : '"' ∉ name) (hb : '"' ∉ before.toList)
    (ht : ∀ text ∈ texts, '"' ∉ text.toList) :
    StandsAt (assignment name) (before.toList ++ '"' :: (following texts).toList) n ↔
      ∃ e ∈ separators i k (start + byteLength before.toList + 1) before texts,
        e.text.toList = name ∧ e.span.offset = start + n + 4 := by
  induction texts generalizing before k start n with
  | nil =>
    rw [assignment_standsAt_iff hb]
    have hend : '"' ∉ (following []).toList := by decide
    constructor
    · rintro (⟨key, _, _, hbegins⟩ | ⟨m, _, hat⟩)
      · exact absurd (hbegins.subset (by simp)) hend
      · exact absurd hat (not_assignment_standsAt hend)
    · rintro ⟨e, he, _⟩
      cases he
  | cons text rest ih =>
    obtain ⟨htext, hrest⟩ := List.forall_mem_cons.mp ht
    have hcomma : '"' ∉ ", ".toList := by decide
    have hfollowing : (following (text :: rest)).toList =
        ", ".toList ++ '"' :: (text.toList ++ '"' :: (following rest).toList) := by
      rw [following]
      simp
    have hsign : byteLength sign = 3 := rfl
    have hlength : byteLength ", ".toList = 2 := rfl
    have hnext : start + byteLength before.toList + 1 + byteLength text.toList + 4 =
        (start + byteLength before.toList + 4) + byteLength text.toList + 1 := by omega
    rw [assignment_standsAt_iff hb, hfollowing, quoted_prefix_iff hn hcomma, separators, hnext]
    simp only [List.mem_append, assignment_standsAt_iff hcomma]
    constructor
    · rintro (⟨key, hkey, rfl, rfl⟩ | ⟨m, rfl, ⟨key, hkey, _⟩ | ⟨m', rfl, hat⟩⟩)
      · refine ⟨⟨.separator i k, ", ", ⟨start + byteLength before.toList + 1, 2⟩⟩, .inl ?_, rfl, ?_⟩
        · rw [if_pos ⟨key, hkey.symm⟩]
          exact List.mem_singleton.mpr rfl
        · rw [hkey, byteLength_append]
          simp only
          omega
      · have hle := congrArg byteLength hkey
        rw [byteLength_append] at hle
        omega
      · obtain ⟨e, he, hname, hoffset⟩ := (ih _ htext hrest (n := m')).mp hat
        exact ⟨e, .inr he, hname, by omega⟩
    · rintro ⟨e, hfirst | hlater, hname, hoffset⟩
      · split at hfirst
        · next hs =>
          obtain rfl := List.mem_singleton.mp hfirst
          obtain ⟨key, hkey⟩ := hs
          refine .inl ⟨key, hkey.symm, ?_, hname.symm⟩
          rw [← hkey, byteLength_append] at hoffset
          simp only at hoffset
          omega
        · cases hfirst
      · have hle := (bounds_of_mem_separators hlater).1
        obtain ⟨m, hm⟩ := Nat.exists_eq_add_of_le
          (show byteLength before.toList + 4 ≤ n by omega)
        have hat := (ih _ htext hrest (n := m)).mpr ⟨e, hlater, hname, by omega⟩
        exact .inr ⟨m + 3, by omega, .inr ⟨m, by omega, hat⟩⟩

/-- A line with a key assigns its own text and no other. -/
theorem assignment_standsAt_value (start : Nat) {place : Position} {text : String} {n : Nat}
    (hn : '"' ∉ name) (ht : '"' ∉ text.toList) :
    StandsAt (assignment name) (ManifestLine.value place text).text.toList n ↔
      ∃ e ∈ (ManifestLine.value place text).entries start,
        e.text.toList = name ∧ e.span.offset = start + n + 4 := by
  have hkey : '"' ∉ place.key.toList ++ sign := by cases place <;> simp [Position.key, sign]
  have hline : (ManifestLine.value place text).text.toList =
      (place.key.toList ++ sign) ++ '"' :: (text.toList ++ '"' :: []) := by
    simp [ManifestLine.text, sign]
  simp only [hline, assignment_standsAt_iff hkey, assignment_standsAt_iff ht,
    quoted_prefix_iff hn ht, ManifestLine.entries, List.mem_singleton]
  constructor
  · rintro (⟨key, hkey, rfl, rfl⟩ | ⟨_, _, ⟨_, _, _, hbegins⟩ | ⟨_, _, hat⟩⟩)
    · rw [List.append_cancel_right hkey]
      exact ⟨_, rfl, rfl, rfl⟩
    · exact absurd (List.prefix_nil.mp hbegins) (by simp)
    · exact absurd hat (not_assignment_standsAt (by simp))
  · rintro ⟨_, rfl, hname, hoffset⟩
    exact .inl ⟨_, rfl, by simpa using hoffset, hname.symm⟩

/-- The bracket that opens a list is no sign of assignment, so only its items may end in one. -/
theorem assignment_standsAt_supertypes (start : Nat) {i : Nat} {text : String}
    {rest : List String} {n : Nat} (hn : '"' ∉ name) (ht : '"' ∉ text.toList)
    (hr : ∀ text ∈ rest, '"' ∉ text.toList) :
    StandsAt (assignment name) (ManifestLine.supertypes i (text :: rest)).text.toList n ↔
      ∃ e ∈ (ManifestLine.supertypes i (text :: rest)).entries start,
        e.text.toList = name ∧ e.span.offset = start + n + 4 := by
  have hkey : '"' ∉ "supertypes = [".toList := by decide
  have hline : (ManifestLine.supertypes i (text :: rest)).text.toList =
      "supertypes = [".toList ++ '"' :: (text.toList ++ '"' :: (following rest).toList) := by
    simp [ManifestLine.text, listed]
  have hfollowing : ∀ m, _ := fun m =>
    assignment_standsAt_following (start + 15) (i := i) (k := 0) (n := m) hn ht hr
  have hlength : byteLength "supertypes = [".toList = 14 := rfl
  have hstart : start + 15 + byteLength text.toList + 1 =
    start + byteLength text.toList + 16 := by omega
  rw [hline, assignment_standsAt_iff hkey, ManifestLine.entries, ← hstart]
  constructor
  · rintro (⟨key, hopening, _⟩ | ⟨m, rfl, hat⟩)
    · have hsuffix : ¬ sign <:+ "supertypes = [".toList := by decide
      exact absurd ⟨key, hopening.symm⟩ hsuffix
    · obtain ⟨e, he, hname, hoffset⟩ := (hfollowing m).mp hat
      exact ⟨e, he, hname, by omega⟩
  · rintro ⟨e, he, hname, hoffset⟩
    have hle := (bounds_of_mem_separators he).1
    obtain ⟨m, hm⟩ := Nat.exists_eq_add_of_le (show 15 ≤ n by omega)
    exact .inr ⟨m, by omega, (hfollowing m).mpr ⟨e, he, hname, by omega⟩⟩

theorem assignment_standsAt_line (start : Nat) {line : ManifestLine} {n : Nat} (hn : '"' ∉ name)
    (hl : line.Plain) :
    StandsAt (assignment name) line.text.toList n ↔
      ∃ e ∈ line.entries start, e.text.toList = name ∧ e.span.offset = start + n + 4 := by
  have hbare : ∀ {text : List Char}, '"' ∉ text → (StandsAt (assignment name) text n ↔
      ∃ e ∈ ([] : List LineEntry), e.text.toList = name ∧ e.span.offset = start + n + 4) := by
    intro text ht
    simp [not_assignment_standsAt ht]
  rcases line with _ | title | ⟨place, text⟩ | ⟨i, _ | ⟨text, rest⟩⟩
  · exact hbare (by decide)
  · exact hbare (by cases title <;> decide)
  · exact assignment_standsAt_value start hn (quote_notMem_of_plain hl)
  · exact hbare (by simp [ManifestLine.text, listed])
  · obtain ⟨htext, hrest⟩ := List.forall_mem_cons.mp hl
    exact assignment_standsAt_supertypes start hn (quote_notMem_of_plain htext)
      fun text hm => quote_notMem_of_plain (hrest text hm)

/-- A text without a line break stands in the first line or in those after it. -/
theorem standsAt_line_iff {part line rest : List Char} {n : Nat} (hp : '\n' ∉ part)
    (hne : part ≠ []) :
    StandsAt part (line ++ '\n' :: rest) n ↔
      StandsAt part line n ∨ ∃ m, n = byteLength line + 1 + m ∧ StandsAt part rest m := by
  have hbreak : byteLength ['\n'] = 1 := rfl
  constructor
  · rintro ⟨front, back, htext, rfl⟩
    rw [List.append_assoc] at htext
    rcases List.append_eq_append_iff.mp htext with ⟨middle, rfl, hrest⟩ | ⟨middle, rfl, hpart⟩
    · cases middle with
      | nil =>
        obtain ⟨c, more, rfl⟩ := List.exists_cons_of_ne_nil hne
        exact absurd (List.mem_cons.mpr (.inl (List.cons.inj hrest).1)) hp
      | cons d middle =>
        obtain ⟨rfl, rfl⟩ := List.cons.inj hrest
        refine .inr ⟨byteLength middle, ?_, middle, back, by simp, rfl⟩
        rw [byteLength_append, byteLength_cons, Nat.add_assoc]
        rfl
    · rcases List.append_eq_append_iff.mp hpart with ⟨more, rfl, _⟩ | ⟨more, rfl, hmore⟩
      · exact .inl ⟨front, more, by simp, rfl⟩
      · cases more with
        | nil => exact .inl ⟨front, [], by simp, rfl⟩
        | cons d more =>
          obtain ⟨rfl, _⟩ := List.cons.inj hmore
          exact absurd (by simp) hp
  · rintro (⟨front, back, rfl, rfl⟩ | ⟨m, rfl, hat⟩)
    · exact ⟨front, back ++ '\n' :: rest, by simp, rfl⟩
    · have hfront : byteLength (line ++ ['\n']) = byteLength line + 1 := byteLength_append _ _
      rw [← hfront, ← List.singleton_append, ← List.append_assoc, ← standsAt_rest]
      exact hat

theorem assignment_standsAt_source (start : Nat) {lines : List ManifestLine} {n : Nat}
    (hn : '"' ∉ name) (hb : '\n' ∉ name) (hl : ∀ line ∈ lines, line.Plain) :
    StandsAt (assignment name) (source lines) n ↔
      ∃ e ∈ entries start lines, e.text.toList = name ∧ e.span.offset = start + n + 4 := by
  have hpart : '\n' ∉ assignment name := by simp [assignment, sign, hb]
  induction lines generalizing start n with
  | nil => simp [source, entries, not_assignment_standsAt]
  | cons line rest ih =>
    obtain ⟨hline, hrest⟩ := List.forall_mem_cons.mp hl
    have hsource : source (line :: rest) = line.text.toList ++ '\n' :: source rest := by
      simp [source]
    rw [hsource, standsAt_line_iff hpart (by simp [assignment]), entries,
      assignment_standsAt_line start hn hline]
    simp only [List.mem_append]
    constructor
    · rintro (⟨e, he, hname, hoffset⟩ | ⟨m, rfl, hat⟩)
      · exact ⟨e, .inl he, hname, hoffset⟩
      · obtain ⟨e, he, hname, hoffset⟩ :=
          (ih (start + byteLength line.text.toList + 1) hrest).mp hat
        exact ⟨e, .inr he, hname, by omega⟩
    · rintro ⟨e, he | he, hname, hoffset⟩
      · exact .inl ⟨e, he, hname, hoffset⟩
      · have hle := (bounds_of_mem_entries he).1
        obtain ⟨m, hm⟩ :=
          Nat.exists_eq_add_of_le (show byteLength line.text.toList + 1 ≤ n by omega)
        exact .inr ⟨m, by omega, (ih _ hrest).mpr ⟨e, he, hname, by omega⟩⟩

/-- Of the entries with a name that begin after an offset with room for a sign, the search from this
offset on finds the first. -/
theorem spanFrom?_eq_first {lines : List ManifestLine} (hl : ∀ line ∈ lines, line.Plain)
    {name : String} (hn : Plain name) {start : Nat} {e : LineEntry} {more : List LineEntry}
    (hfirst : (entries 0 lines).filter (fun e => e.text = name ∧ start + 4 ≤ e.span.offset) =
      e :: more)
    {rest : List Char} (hrest : dropBytes start (source lines) = some rest) :
    spanFrom? (source lines) name start = some e.span := by
  have hat : ∀ n, StandsAt (assignment name.toList) (source lines) n ↔
      ∃ e ∈ entries 0 lines, e.text.toList = name.toList ∧ e.span.offset = 0 + n + 4 := fun _ =>
    assignment_standsAt_source 0 (quote_notMem_of_plain hn) (inline_of_plain hn) hl
  obtain ⟨front, hsource, rfl⟩ := dropBytes_eq_some.mp hrest
  have hmem := List.mem_filter.mp (hfirst ▸ List.mem_cons_self : e ∈ _)
  simp only [decide_eq_true_eq] at hmem
  obtain ⟨he, hname, hle⟩ := hmem
  obtain ⟨n, hoffset⟩ := Nat.exists_eq_add_of_le hle
  have hentry : StandsAt (assignment name.toList) rest n := by
    rw [standsAt_rest front, ← hsource, hat]
    exact ⟨e, he, congrArg String.toList hname, by omega⟩
  have hfound : find? (assignment name.toList) rest ≠ none := fun hnone =>
    find?_eq_none.mp hnone (exists_standsAt.mp ⟨n, hentry⟩)
  obtain ⟨m, hm⟩ := Option.ne_none_iff_exists'.mp hfound
  obtain ⟨hstands, hbefore⟩ := find?_eq_some hm
  have hmn : m ≤ n := Nat.le_of_not_lt fun hlt => hbefore n hlt hentry
  rw [standsAt_rest front, ← hsource, hat] at hstands
  obtain ⟨e', he', hname', hoffset'⟩ := hstands
  have hmem' : e' ∈ e :: more := by
    rw [← hfirst, List.mem_filter]
    exact ⟨he', by simp [String.toList_inj.mp hname']; omega⟩
  have hsorted := (pairwise_entries 0 lines).filter
    (fun e => e.text = name ∧ byteLength front + 4 ≤ e.span.offset)
  rw [hfirst, List.pairwise_cons] at hsorted
  have hnm : n ≤ m := by
    rcases List.mem_cons.mp hmem' with rfl | hlater
    · omega
    · have hlt := hsorted.1 e' hlater
      rw [Span.stop] at hlt
      omega
  have hlength : e.span.length = byteLength name.toList := by
    rw [(bounds_of_mem_entries he).2, hname]
  have hsearch : findName? name.toList rest = some (m + 4) := by
    have hafter : findAfter? " = \"" name.toList rest = some (m + 4) := by
      have hpattern : " = \"".toList ++ name.toList ++ ['"'] = assignment name.toList := by
        simp [assignment, sign]
      rw [findAfter?, hpattern, hm]
      rfl
    rw [findName?, hafter]
    rfl
  refine spanFrom?_eq_some.mpr ⟨front, rest, m + 4, hsource, rfl, hsearch, ?_⟩
  rw [← hlength, show byteLength front + (m + 4) = e.span.offset by omega]

/-- The text can be cut after an entry. -/
theorem exists_dropBytes_stop {lines : List ManifestLine} (hl : ∀ line ∈ lines, line.Plain)
    {e : LineEntry} (he : e ∈ entries 0 lines) (ht : Plain e.text) :
    ∃ rest, dropBytes e.span.stop (source lines) = some rest := by
  obtain ⟨hle, hlength⟩ := bounds_of_mem_entries he
  obtain ⟨n, hn⟩ := Nat.exists_eq_add_of_le hle
  obtain ⟨front, back, hsource, rfl⟩ := (assignment_standsAt_source 0 (n := n)
    (quote_notMem_of_plain ht) (inline_of_plain ht) hl).mpr ⟨e, he, rfl, by omega⟩
  refine ⟨'"' :: back, dropBytes_eq_some.mpr ⟨front ++ (sign ++ '"' :: e.text.toList), ?_, ?_⟩⟩
  · rw [hsource, assignment]
    simp
  · have hopening : byteLength sign + '"'.utf8Size = 4 := rfl
    rw [byteLength_append, byteLength_append, byteLength_cons, Span.stop, hlength]
    omega

/-- The entries that begin after an entry, with room for a sign, are those behind it. -/
theorem filter_after {start : Nat} {lines : List ManifestLine} {front rest : List LineEntry}
    {e : LineEntry} (h : entries start lines = front ++ e :: rest) (name : String) :
    (entries start lines).filter (fun f => f.text = name ∧ e.span.stop + 4 ≤ f.span.offset) =
      rest.filter (·.text = name) := by
  have hsorted := pairwise_entries start lines
  rw [h, List.pairwise_append, List.pairwise_cons] at hsorted
  obtain ⟨_, ⟨hrest, _⟩, hfront⟩ := hsorted
  have hbefore : ∀ f ∈ front ++ [e], ¬ (f.text = name ∧ e.span.stop + 4 ≤ f.span.offset) := by
    intro f hf
    have hle : f.span.offset ≤ e.span.stop := by
      rcases List.mem_append.mp hf with hm | hm
      · have hlt := hfront f hm e List.mem_cons_self
        simp only [Span.stop] at hlt ⊢
        omega
      · obtain rfl := List.mem_singleton.mp hm
        exact Nat.le_add_right _ _
    omega
  have hnone : (front ++ [e]).filter
      (fun f => f.text = name ∧ e.span.stop + 4 ≤ f.span.offset) = [] :=
    List.filter_eq_nil_iff.mpr fun f hf => by simpa using hbefore f hf
  rw [h, List.append_cons, List.filter_append, hnone, List.nil_append]
  refine List.filter_congr fun f hf => ?_
  simp [hrest f hf]

end StyleFamily.Canonical
