import StyleFamily.Manifest.Validation
import StyleFamily.Proofs.Manifest.Places

/-!
# Reading manifests in canonical layout

The reader of documents goes through a text in canonical layout line by line: a header opens a
table, a key puts its value into the table opened last, a blank line changes nothing. So what is
read of the text is the manifest that was written down.
-/
namespace StyleFamily
open Toml Canonical

namespace Canonical

/-- The names in the header of a table. -/
def Table.names : Table → List String
  | .output => ["output"]
  | .scanner => ["scanner"]
  | .declaration => ["declaration"]
  | .parameter => ["declaration", "param"]

/-- The entries of a document after the header of a table. -/
def Table.open? (entries : Entries) : Table → Option Entries
  | .output => entries.openTable ["output"]
  | .scanner => entries.openTable ["scanner"]
  | .declaration => entries.openItem ["declaration"]
  | .parameter => entries.openItem ["declaration", "param"]

theorem readLine_header {progress : Progress} {key : List String} (c : Char) (name : List Char)
    {rest : List Char} (hc : c ≠ '[')
    (hkey : readKey (c :: name ++ ']' :: '\n' :: rest) = some (key, ']' :: '\n' :: rest)) :
    readLine progress ('[' :: (c :: name ++ ']' :: '\n' :: rest)) =
      (progress.entries.openTable key).map fun entries => (⟨entries, key⟩, rest) := by
  have hskip : skipSpace ('[' :: (c :: name ++ ']' :: '\n' :: rest)) =
      '[' :: (c :: name ++ ']' :: '\n' :: rest) := rfl
  have hnext : nextLine ('\n' :: rest) = some rest := rfl
  rw [readLine, hskip]
  split
  · next h => exact absurd (List.cons.inj (List.cons.inj h).2).1 hc
  · next cs _ h =>
    obtain rfl : c :: name ++ ']' :: '\n' :: rest = cs := (List.cons.inj h).2
    simp only [hkey, hnext, Option.bind_eq_bind, Option.bind_some, Option.map_eq_bind]
    rfl
  · next h => exact absurd rfl (h _)

theorem readLine_repeatedHeader {progress : Progress} {key : List String} (name : List Char)
    {rest : List Char} (hkey : readKey (name ++ ']' :: ']' :: '\n' :: rest) =
      some (key, ']' :: ']' :: '\n' :: rest)) :
    readLine progress ('[' :: '[' :: (name ++ ']' :: ']' :: '\n' :: rest)) =
      (progress.entries.openItem key).map fun entries => (⟨entries, key⟩, rest) := by
  have hskip : skipSpace ('[' :: '[' :: (name ++ ']' :: ']' :: '\n' :: rest)) =
      '[' :: '[' :: (name ++ ']' :: ']' :: '\n' :: rest) := rfl
  have hnext : nextLine ('\n' :: rest) = some rest := rfl
  rw [readLine, hskip]
  simp only [hkey, hnext, Option.bind_eq_bind, Option.bind_some, Option.map_eq_bind]
  rfl

theorem readLine_table (progress : Progress) (title : Table) (rest : List Char) :
    readLine progress (title.header.toList ++ '\n' :: rest) =
      (title.open? progress.entries).map fun entries => (⟨entries, title.names⟩, rest) := by
  cases title with
  | output => exact readLine_header 'o' "utput".toList (by decide) rfl
  | scanner => exact readLine_header 's' "canner".toList (by decide) rfl
  | declaration => exact readLine_repeatedHeader "declaration".toList rfl
  | parameter => exact readLine_repeatedHeader "declaration.param".toList rfl

theorem readBasic_cons {c : Char} (hq : c ≠ '"') (hb : c ≠ '\\') (hp : Toml.isPlain c = true)
    (read rest : List Char) : readBasic read (c :: rest) = readBasic (c :: read) rest := by
  rw [readBasic, if_pos hp]
  all_goals simp [hq, hb]

theorem readBasic_plain {text : List Char}
    (h : ∀ c ∈ text, c ≠ '"' ∧ c ≠ '\\' ∧ 0x20 ≤ c.toNat ∧ c.toNat ≠ 0x7F)
    (read rest : List Char) :
    readBasic read (text ++ '"' :: rest) = some (String.ofList (read.reverse ++ text), rest) := by
  induction text generalizing read with
  | nil => simp [readBasic]
  | cons c text ih =>
    obtain ⟨⟨hq, hb, hl, hd⟩, ht⟩ := List.forall_mem_cons.mp h
    have hp : Toml.isPlain c = true := by simp [Toml.isPlain, hl, hd]
    rw [List.cons_append, readBasic_cons hq hb hp, ih ht, List.reverse_cons, List.append_assoc,
      List.singleton_append]

/-- A plain text between quotes is read as it stands there. Two quotes would open a long string, but
an empty text has nothing but its own quote before the end. -/
theorem readValue_string {text : String} (h : Plain text) {rest : List Char}
    (hr : rest.head? ≠ some '"') (fuel room : Nat) :
    readValue (fuel + 1) room ('"' :: (text.toList ++ '"' :: rest)) =
      some (.string text, rest) := by
  have hlong : ∀ more, text.toList ++ '"' :: rest ≠ '"' :: '"' :: more := by
    intro more he
    cases ht : text.toList with
    | nil =>
      rw [ht] at he
      obtain ⟨_, rfl⟩ := List.cons.inj he
      exact hr rfl
    | cons c tail =>
      rw [ht] at he
      obtain ⟨rfl, _⟩ := List.cons.inj he
      exact (h '"' (by rw [ht]; exact List.mem_cons_self)).1 rfl
  have hquoted : readQuoted ('"' :: (text.toList ++ '"' :: rest)) = some (text, rest) := by
    rw [readQuoted, readBasic_plain h]
    · simp
    · exact hlong
  rw [readValue, hquoted]
  rfl

/-- One item of a list, with what stands after it. -/
theorem readItems_string {text : String} (h : Plain text) {c : Char} {rest : List Char}
    (hc : c = ',' ∨ c = ']') (fuel room : Nat) :
    readItems (fuel + 2) room ('"' :: (text.toList ++ '"' :: c :: rest)) =
      if c = ']' then some ([.string text], rest)
      else (readItems (fuel + 1) room rest).map fun (items, rest) =>
        (.string text :: items, rest) := by
  have hquote : ∀ cs, skipFiller false ('"' :: cs) = some ('"' :: cs) := fun _ => rfl
  have hhead : (c :: rest).head? ≠ some '"' := by rcases hc with rfl | rfl <;> simp
  have hvalue := readValue_string h hhead fuel room
  rw [readItems]
  simp only [hquote, Option.bind_eq_bind, Option.bind_some]
  rcases hc with rfl | rfl
  · have hmark : skipFiller false (',' :: rest) = some (',' :: rest) := rfl
    simp [hvalue, hmark, Option.map_eq_bind]
  · have hmark : skipFiller false (']' :: rest) = some (']' :: rest) := rfl
    simp [hvalue, hmark]

/-- A blank before an item is passed over. -/
theorem readItems_blank (fuel room : Nat) (rest : List Char) :
    readItems (fuel + 1) room (' ' :: '"' :: rest) = readItems (fuel + 1) room ('"' :: rest) := by
  rw [readItems, readItems]
  rfl

/-- The items of a list from its first quote on. -/
theorem readItems_listed {text : String} {texts : List String} (h : Plain text)
    (ht : ∀ text ∈ texts, Plain text) {fuel room : Nat} (hf : texts.length + 2 ≤ fuel)
    (rest : List Char) :
    readItems fuel room ('"' :: (text.toList ++ '"' :: ((following texts).toList ++ rest))) =
      some ((text :: texts).map .string, rest) := by
  obtain ⟨fuel, rfl⟩ : ∃ more, fuel = more + 2 := ⟨fuel - 2, by omega⟩
  induction texts generalizing text fuel with
  | nil => exact readItems_string h (.inr rfl) fuel room
  | cons next texts ih =>
    obtain ⟨hnext, hrest⟩ := List.forall_mem_cons.mp ht
    have hfollowing : (following (next :: texts)).toList ++ rest =
        ',' :: ' ' :: '"' :: (next.toList ++ '"' :: ((following texts).toList ++ rest)) := by
      rw [following]
      simp
    obtain ⟨more, rfl⟩ : ∃ more, fuel = more + 1 :=
      ⟨fuel - 1, by rw [List.length_cons] at hf; omega⟩
    rw [hfollowing, readItems_string h (.inl rfl), if_neg (by decide), readItems_blank,
      ih hnext hrest _ (by simpa using hf)]
    rfl

/-- The value of a list. -/
theorem readValue_listed {texts : List String} (h : ∀ text ∈ texts, Plain text) {fuel room : Nat}
    (hf : texts.length + 2 ≤ fuel) (hr : 0 < room) (rest : List Char) :
    readValue fuel room ((listed texts).toList ++ rest) =
      some (.array (texts.map .string), rest) := by
  obtain ⟨fuel, rfl⟩ : ∃ more, fuel = more + 2 := ⟨fuel - 2, by omega⟩
  have hitems : ∀ {cs items}, readItems (fuel + 1) (room - 1) cs = some (items, rest) →
      readValue (fuel + 2) room ('[' :: cs) = some (.array items, rest) := by
    intro cs items hcs
    rw [readValue, if_neg (by omega), hcs]
    rfl
  cases texts with
  | nil => exact hitems rfl
  | cons text texts =>
    have hlisted : (listed (text :: texts)).toList ++ rest =
        '[' :: '"' :: (text.toList ++ '"' :: ((following texts).toList ++ rest)) := by
      simp [listed]
    rw [hlisted]
    refine hitems (readItems_listed (h _ List.mem_cons_self)
      (fun t ht => h t (List.mem_cons_of_mem _ ht)) ?_ rest)
    simpa using hf

/-- A key and its value on a line of their own. -/
theorem readLine_value {progress : Progress} {key : String} {cs rest : List Char} {value : Toml}
    (hkey : ∃ c more, key.toList = c :: more ∧ isBareKeyPart c = true)
    (hread : ∀ cs, readKey (key.toList ++ ' ' :: '=' :: ' ' :: cs) =
      some ([key], '=' :: ' ' :: cs))
    (hcs : skipSpace cs = cs)
    (hvalue : readValue (2 * (cs.length + 1) + 2) deepest cs = some (value, '\n' :: rest)) :
    readLine progress (key.toList ++ ' ' :: '=' :: ' ' :: cs) =
      (progress.entries.defineUnder value [key] progress.header).map fun entries =>
        ({ progress with entries }, rest) := by
  obtain ⟨c, more, hc, hpart⟩ := hkey
  have hkind : ∀ d, isBareKeyPart d = false → c ≠ d := by
    rintro d hd rfl
    rw [hd] at hpart
    cases hpart
  have hskip : skipSpace (key.toList ++ ' ' :: '=' :: ' ' :: cs) =
      key.toList ++ ' ' :: '=' :: ' ' :: cs := by
    have hspace : isSpace c = false := by
      simp [isSpace, hkind ' ' (by decide), hkind '\t' (by decide)]
    rw [hc, List.cons_append, skipSpace, List.dropWhile_cons_of_neg (by simp [hspace])]
  have hnext : nextLine (key.toList ++ ' ' :: '=' :: ' ' :: cs) = none := by
    rw [nextLine, hskip, hc, List.cons_append]
    split
    · next h => cases h
    · next h => exact absurd (List.cons.inj h).1 (hkind _ (by decide))
    · next h => exact absurd (List.cons.inj h).1 (hkind _ (by decide))
    · next h => exact absurd (List.cons.inj h).1 (hkind _ (by decide))
    · rfl
  have hend : nextLine ('\n' :: rest) = some rest := rfl
  have hblank : skipSpace (' ' :: cs) = cs := by
    rw [skipSpace, List.dropWhile_cons_of_pos (by decide)]
    exact hcs
  rw [readLine, hskip]
  split
  · next h =>
    rw [hc] at h
    exact absurd (List.cons.inj h).1 (hkind _ (by decide))
  · next h =>
    rw [hc] at h
    exact absurd (List.cons.inj h).1 (hkind _ (by decide))
  · rw [hnext, hread]
    simp only [Option.bind_eq_bind, Option.bind_some, hblank, List.length_cons, hvalue, hend]
    rw [Option.map_eq_bind]
    rfl

/-- Where a line leaves the reader of a document. -/
def ManifestLine.enter? (progress : Progress) : ManifestLine → Option Progress
  | .blank => some progress
  | .table title => (title.open? progress.entries).map fun entries => ⟨entries, title.names⟩
  | .value place text =>
    (progress.entries.defineUnder (.string text) [place.key] progress.header).map fun entries =>
      { progress with entries }
  | .supertypes _ texts =>
    (progress.entries.defineUnder (.array (texts.map .string)) ["supertypes"]
      progress.header).map fun entries => { progress with entries }

/-- The progress of the reader along lines. -/
def reads? (progress : Progress) : List ManifestLine → Option Progress
  | [] => some progress
  | line :: lines => (line.enter? progress).bind fun progress => reads? progress lines

theorem reads?_append (progress : Progress) (lines more : List ManifestLine) :
    reads? progress (lines ++ more) =
      (reads? progress lines).bind fun progress => reads? progress more := by
  induction lines generalizing progress with
  | nil => rfl
  | cons line lines ih =>
    rw [List.cons_append, reads?, reads?, Option.bind_assoc]
    simp only [ih]

theorem Position.key_begins (place : Position) :
    ∃ c more, place.key.toList = c :: more ∧ isBareKeyPart c = true := by
  have hname : ∀ key ∈ ["package", "dir", "owner", "suffix", "name", "type", "supertypes"],
      key.toList.head?.any isBareKeyPart = true := by decide
  have hkey : place.key.toList.head?.any isBareKeyPart = true :=
    hname _ (by cases place <;> simp [Position.key])
  cases hlist : place.key.toList with
  | nil => simp [hlist] at hkey
  | cons c more => exact ⟨c, more, rfl, by simpa [hlist] using hkey⟩

theorem readKey_key (place : Position) (cs : List Char) :
    readKey (place.key.toList ++ ' ' :: '=' :: ' ' :: cs) =
      some ([place.key], '=' :: ' ' :: cs) := by
  cases place with
  | package | directory | owner | suffix => rfl
  | declaration | parameter =>
    show readKey ("name".toList ++ _) = _
    rfl
  | type =>
    show readKey ("type".toList ++ _) = _
    rfl
  | separator =>
    show readKey ("supertypes".toList ++ _) = _
    rfl

theorem length_le_following (texts : List String) :
    texts.length ≤ (following texts).toList.length := by
  induction texts with
  | nil => exact Nat.zero_le _
  | cons text texts ih =>
    simp only [following, String.toList_append, List.length_append, List.length_cons]
    have hopening : ", \"".toList.length = 3 := rfl
    omega

theorem length_le_listed (texts : List String) :
    texts.length ≤ (listed texts).toList.length := by
  cases texts with
  | nil => exact Nat.zero_le _
  | cons text texts =>
    have hle := length_le_following texts
    have hopening : "[\"".toList.length = 2 := rfl
    simp only [listed, String.toList_append, List.length_append, List.length_cons]
    omega

/-- A line is read as what it was written for. -/
theorem readLine_line {line : ManifestLine} (h : line.Plain) (progress : Progress)
    (rest : List Char) :
    readLine progress (line.text.toList ++ '\n' :: rest) =
      (line.enter? progress).map fun progress => (progress, rest) := by
  cases line with
  | blank => rfl
  | table title =>
    rw [ManifestLine.enter?, Option.map_map]
    exact readLine_table progress title rest
  | value place text =>
    have hline : (ManifestLine.value place text).text.toList ++ '\n' :: rest =
        place.key.toList ++ ' ' :: '=' :: ' ' :: '"' :: (text.toList ++ '"' :: '\n' :: rest) := by
      simp [ManifestLine.text]
    rw [hline, ManifestLine.enter?, Option.map_map]
    exact readLine_value place.key_begins (readKey_key place) rfl
      (readValue_string h (by simp) _ _)
  | supertypes i texts =>
    have hline : (ManifestLine.supertypes i texts).text.toList ++ '\n' :: rest =
        (Position.separator i 0).key.toList ++
          ' ' :: '=' :: ' ' :: ((listed texts).toList ++ '\n' :: rest) := by
      simp [ManifestLine.text, Position.key]
    have hbracket : skipSpace ((listed texts).toList ++ '\n' :: rest) =
        (listed texts).toList ++ '\n' :: rest := by
      cases texts <;> simp [listed] <;> rfl
    have hlength := length_le_listed texts
    rw [hline, ManifestLine.enter?, Option.map_map]
    refine readLine_value (Position.key_begins _) (readKey_key _) hbracket
      (readValue_listed h ?_ (by decide) _)
    rw [List.length_append]
    omega

theorem source_cons (line : ManifestLine) (lines : List ManifestLine) :
    source (line :: lines) = line.text.toList ++ '\n' :: source lines := by
  simp [source]

/-- Line by line, the whole text is read. -/
theorem readLines_source {lines : List ManifestLine} (h : ∀ line ∈ lines, line.Plain)
    {fuel : Nat} (hf : lines.length ≤ fuel) (progress : Progress) :
    readLines fuel progress (source lines) = reads? progress lines := by
  induction lines generalizing fuel progress with
  | nil =>
    cases fuel <;> rfl
  | cons line lines ih =>
    obtain ⟨hline, hlines⟩ := List.forall_mem_cons.mp h
    obtain ⟨fuel, rfl⟩ := Nat.exists_eq_add_one_of_ne_zero (Nat.ne_zero_of_lt hf)
    rw [source_cons, readLines, readLine_line hline, reads?]
    · cases line.enter? progress with
      | none => rfl
      | some progress => exact ih hlines (Nat.le_of_succ_le_succ hf) progress
    · simp

theorem length_le_source (lines : List ManifestLine) : lines.length ≤ (source lines).length := by
  induction lines with
  | nil => exact Nat.zero_le _
  | cons line lines ih =>
    rw [source_cons, List.length_append, List.length_cons, List.length_cons]
    omega

theorem withoutMark_source (lines : List ManifestLine) :
    withoutMark (source lines) = source lines := by
  have hmark : ∀ cs : List Char, cs.head? ≠ some '\ufeff' → withoutMark cs = cs := by
    intro cs hcs
    rw [withoutMark]
    rintro rest rfl
    exact hcs rfl
  refine hmark _ ?_
  cases lines with
  | nil => simp [source]
  | cons line lines =>
    rw [source_cons]
    cases line with
    | blank => simp [ManifestLine.text]
    | table title => cases title <;> simp [ManifestLine.text, Table.header]
    | value place text =>
      obtain ⟨c, more, hc, hpart⟩ := place.key_begins
      have hne : c ≠ '\ufeff' := by
        rintro rfl
        exact absurd hpart (by decide)
      simpa [ManifestLine.text, hc] using hne
    | supertypes => simp [ManifestLine.text]

/-- The entries of the text are those that its lines enter. -/
theorem read?_source {lines : List ManifestLine} (h : ∀ line ∈ lines, line.Plain) :
    read? (String.ofList (source lines)) =
      (reads? {} lines).map fun progress => finishEntries progress.entries := by
  rw [read?, String.toList_ofList, withoutMark_source, readLines_source h]
  exact (length_le_source lines).trans (Nat.le_succ _)

/-- The names in front of an entry are other names. -/
def Apart (name : String) (front : Entries) : Prop := ∀ entry ∈ front, entry.1 ≠ name

theorem update_append {front : Entries} {name : String} (h : Apart name front)
    (change : Option Draft → Option Draft) (rest : Entries) :
    Entries.update change name (front ++ rest) =
      (Entries.update change name rest).map (front ++ ·) := by
  induction front with
  | nil => simp
  | cons entry front ih =>
    obtain ⟨hentry, hfront⟩ := List.forall_mem_cons.mp h
    rw [List.cons_append, Entries.update, if_neg hentry, ih hfront, Option.map_map]
    rfl

theorem define_apart {entries : Entries} {name : String} (h : Apart name entries) (value : Toml) :
    entries.define value [name] = some (entries ++ [(name, .value value)]) := by
  rw [Entries.define]
  exact (congrArg (Entries.update _ name) (List.append_nil entries).symm).trans
    (update_append h _ [])

/-- The tables under a repeated header, as long as there is one. -/
def repeated {α : Type} (name : String) (draft : α → Entries) (items : List α) : Entries :=
  items.getLast?.toList.map fun last =>
    (name, .tables (items.dropLast.map fun item => .table (finishEntries (draft item)))
      (draft last))

section
variable {α : Type} {name : String} {front : Entries} (draft : α → Entries)

theorem repeated_concat (items : List α) (last : α) : repeated name draft (items ++ [last]) =
    [(name, .tables (items.map fun item => .table (finishEntries (draft item))) (draft last))] := by
  simp [repeated]

/-- One more table is opened behind those that there are. -/
theorem openItem_repeated (h : Apart name front) (items : List α) :
    Entries.openItem [name] (front ++ repeated name draft items) =
      some (front ++ [(name,
        .tables (items.map fun item => .table (finishEntries (draft item))) [])]) := by
  rw [Entries.openItem, update_append h]
  rcases List.eq_nil_or_concat items with rfl | ⟨items, last, rfl⟩
  · rfl
  · rw [List.concat_eq_append, repeated_concat, Entries.update, if_pos rfl, List.map_append]
    rfl

theorem openItem_within (h : Apart name front) (next : String) (more : List String)
    (closed : List Toml) (last : Entries) :
    Entries.openItem (name :: next :: more) (front ++ [(name, .tables closed last)]) =
      (Entries.openItem (next :: more) last).map fun last =>
        front ++ [(name, .tables closed last)] := by
  rw [Entries.openItem, update_append h, Entries.update, if_pos rfl, Option.map_map,
    Option.map_map]
  · rfl
  · simp

theorem defineUnder_here (value : Toml) (key : List String) (entries : Entries) :
    entries.defineUnder value key [] = entries.define value key := by
  rw [Entries.defineUnder]

theorem defineUnder_within (h : Apart name front) (value : Toml) (key more : List String)
    (closed : List Toml) (last : Entries) :
    Entries.defineUnder value key (name :: more) (front ++ [(name, .tables closed last)]) =
      (Entries.defineUnder value key more last).map fun last =>
        front ++ [(name, .tables closed last)] := by
  rw [Entries.defineUnder, update_append h, Entries.update, if_pos rfl, Option.map_map,
    Option.map_map]
  rfl

end

end Canonical

def SourceParameter.drafts (p : SourceParameter) : Entries :=
  [("name", .value (.string p.name)), ("type", .value (.string p.type))]

namespace SourceDeclaration

/-- The entries of a declaration before its parameters. -/
def heading (d : SourceDeclaration) : Entries :=
  [("name", .value (.string d.name)), ("supertypes", .value (.array (d.supertypes.map .string)))]

def drafts (d : SourceDeclaration) : Entries :=
  d.heading ++ repeated "param" SourceParameter.drafts d.parameters

end SourceDeclaration

def OutputTable.drafts (table : OutputTable) : Entries :=
  (table.package.map fun text => ("package", .value (.string text))).toList ++
    (table.directory.map fun text => ("dir", .value (.string text))).toList

def ScannerTable.drafts (table : ScannerTable) : Entries :=
  (table.owner.map fun text => ("owner", .value (.string text))).toList ++
    (table.suffix.map fun text => ("suffix", .value (.string text))).toList

namespace CanonicalManifest

/-- The entries of the tables before the declarations. -/
def heading (c : CanonicalManifest) : Entries :=
  (c.output.map fun table => ("output", .table .header table.drafts)).toList ++
    (c.scanner.map fun table => ("scanner", .table .header table.drafts)).toList

def drafts (c : CanonicalManifest) : Entries :=
  c.heading ++ repeated "declaration" SourceDeclaration.drafts c.declarations

theorem apart_heading (d : SourceDeclaration) : Apart "param" d.heading := by
  simp [Apart, SourceDeclaration.heading]

/-- The lines of a parameter put one more table under the declaration opened last. -/
theorem reads?_parameter {front : Entries} (hfront : Apart "declaration" front)
    (closed : List Toml) (d : SourceDeclaration) (before : List SourceParameter)
    (p : SourceParameter) (i j : Nat) (header : List String) :
    reads? ⟨front ++ [("declaration", .tables closed
        (d.heading ++ repeated "param" SourceParameter.drafts before))], header⟩
      (parameterLines i (p, j)) =
      some ⟨front ++ [("declaration", .tables closed
        (d.heading ++ repeated "param" SourceParameter.drafts (before ++ [p])))],
        ["declaration", "param"]⟩ := by
  have hname : Entries.define (.string p.name) ["name"] [] =
      some [("name", .value (.string p.name))] := rfl
  have htype : Entries.define (.string p.type) ["type"] [("name", .value (.string p.name))] =
      some p.drafts := define_apart (by simp [Apart]) _
  simp only [reads?, parameterLines, ManifestLine.enter?, Table.open?, Table.names, Position.key,
    openItem_within hfront, openItem_repeated _ (apart_heading d), defineUnder_within hfront,
    defineUnder_within (apart_heading d), defineUnder_here, hname, htype, Option.map_some,
    Option.bind_some, repeated_concat]

/-- The parameters of a declaration, line by line. -/
theorem reads?_parameters {front : Entries} (hfront : Apart "declaration" front)
    (closed : List Toml) (d : SourceDeclaration) (parameters before : List SourceParameter)
    (i j : Nat) (header : List String) :
    ∃ header', reads? ⟨front ++ [("declaration", .tables closed
        (d.heading ++ repeated "param" SourceParameter.drafts before))], header⟩
      ((parameters.zipIdx j).flatMap (parameterLines i)) =
      some ⟨front ++ [("declaration", .tables closed
        (d.heading ++ repeated "param" SourceParameter.drafts (before ++ parameters)))],
        header'⟩ := by
  induction parameters generalizing before j header with
  | nil => exact ⟨header, by rw [List.append_nil]; rfl⟩
  | cons p parameters ih =>
    obtain ⟨header', hrest⟩ := ih (before ++ [p]) (j + 1) ["declaration", "param"]
    refine ⟨header', ?_⟩
    rw [List.zipIdx_cons, List.flatMap_cons, reads?_append,
      reads?_parameter hfront closed d before p i j header, Option.bind_some,
      List.append_cons before p parameters]
    exact hrest

theorem reads?_declaration {front : Entries} (hfront : Apart "declaration" front)
    (before : List SourceDeclaration) (d : SourceDeclaration) (i : Nat) (header : List String) :
    ∃ header', reads? ⟨front ++ repeated "declaration" SourceDeclaration.drafts before, header⟩
      (declarationLines (d, i)) =
      some ⟨front ++ repeated "declaration" SourceDeclaration.drafts (before ++ [d]),
        header'⟩ := by
  have hname : Entries.define (.string d.name) ["name"] [] =
      some [("name", .value (.string d.name))] := rfl
  have hsupertypes : Entries.define (.array (d.supertypes.map .string)) ["supertypes"]
      [("name", .value (.string d.name))] = some d.heading := define_apart (by simp [Apart]) _
  obtain ⟨header', hparameters⟩ := reads?_parameters hfront
    (before.map fun d => .table (finishEntries d.drafts)) d d.parameters [] i 0 ["declaration"]
  refine ⟨header', ?_⟩
  have hnone : d.heading ++ repeated "param" SourceParameter.drafts [] = d.heading := by
    simp [repeated]
  rw [hnone, List.nil_append] at hparameters
  rw [repeated_concat, SourceDeclaration.drafts, ← hparameters]
  simp only [reads?, declarationLines, ManifestLine.enter?, Table.open?, Table.names, Position.key,
    openItem_repeated _ hfront, defineUnder_within hfront, defineUnder_here, hname, hsupertypes,
    Option.map_some, Option.bind_some]

theorem reads?_declarations {front : Entries} (hfront : Apart "declaration" front)
    (declarations before : List SourceDeclaration) (i : Nat) (header : List String) :
    ∃ header', reads? ⟨front ++ repeated "declaration" SourceDeclaration.drafts before, header⟩
      ((declarations.zipIdx i).flatMap declarationLines) =
      some ⟨front ++ repeated "declaration" SourceDeclaration.drafts (before ++ declarations),
        header'⟩ := by
  induction declarations generalizing before i header with
  | nil => exact ⟨header, by rw [List.append_nil]; rfl⟩
  | cons d declarations ih =>
    obtain ⟨header', hfirst⟩ := reads?_declaration hfront before d i header
    obtain ⟨header'', hrest⟩ := ih (before ++ [d]) (i + 1) header'
    refine ⟨header'', ?_⟩
    rw [List.zipIdx_cons, List.flatMap_cons, reads?_append, hfirst, Option.bind_some,
      List.append_cons before d declarations]
    exact hrest

theorem reads?_tables (c : CanonicalManifest) :
    ∃ header, reads? {} (c.output.elim [] OutputTable.lines ++
      c.scanner.elim [] ScannerTable.lines) = some ⟨c.heading, header⟩ := by
  obtain ⟨output, scanner, declarations⟩ := c
  rcases output with _ | ⟨_ | package, _ | directory⟩ <;>
    rcases scanner with _ | ⟨_ | owner, _ | suffix⟩ <;> exact ⟨_, rfl⟩

theorem apart_tables (c : CanonicalManifest) : Apart "declaration" c.heading := by
  intro entry he
  simp only [heading, List.mem_append, Option.mem_toList, Option.map_eq_some_iff] at he
  rcases he with ⟨_, _, rfl⟩ | ⟨_, _, rfl⟩ <;> simp

/-- Blank lines are passed over. -/
theorem reads?_filter (progress : Progress) (lines : List ManifestLine) :
    reads? progress (lines.filter (! ·.isBlank)) = reads? progress lines := by
  induction lines generalizing progress with
  | nil => rfl
  | cons line lines ih =>
    cases line with
    | blank => exact ih progress
    | table | value | supertypes =>
      rw [List.filter_cons_of_pos (by rfl), reads?, reads?]
      simp only [ih]

/-- The entries of a text in canonical layout. -/
theorem reads?_lines {c : CanonicalManifest} {lines : List ManifestLine} (h : c.WrittenAs lines) :
    ∃ header, reads? {} lines = some ⟨c.drafts, header⟩ := by
  obtain ⟨header, htables⟩ := c.reads?_tables
  obtain ⟨header', hdeclarations⟩ :=
    reads?_declarations c.apart_tables c.declarations [] 0 header
  refine ⟨header', ?_⟩
  rw [← reads?_filter, h, CanonicalManifest.lines, reads?_append, htables, Option.bind_some]
  simpa [repeated, drafts] using hdeclarations

end CanonicalManifest

namespace Canonical

/-- The entries of a table whose fields may be absent. -/
def present : List (String × Option Toml) → List (String × Toml)
  | [] => []
  | (name, value) :: fields => (value.map (name, ·)).toList ++ present fields

theorem mem_names_of_mem_present {fields : List (String × Option Toml)} {entry : String × Toml}
    (h : entry ∈ present fields) : entry.1 ∈ fields.map (·.1) := by
  induction fields with
  | nil => cases h
  | cons field fields ih =>
    rcases List.mem_append.mp h with h | h
    · obtain ⟨_, _, rfl⟩ := Option.map_eq_some_iff.mp (Option.mem_toList.mp h)
      exact List.mem_cons_self
    · exact List.mem_cons_of_mem _ (ih h)

theorem lookup_present {fields : List (String × Option Toml)} (h : (fields.map (·.1)).Nodup)
    {name : String} {value : Option Toml} (hm : (name, value) ∈ fields) :
    (present fields).lookup name = value := by
  induction fields with
  | nil => cases hm
  | cons field fields ih =>
    obtain ⟨hfirst, hrest⟩ := List.nodup_cons.mp h
    rcases List.mem_cons.mp hm with rfl | hlater
    · cases value with
      | none =>
        refine List.lookup_eq_none_iff.mpr fun entry he => bne_iff_ne.mpr fun heq => hfirst ?_
        exact heq ▸ mem_names_of_mem_present he
      | some value => exact List.lookup_cons_self
    · have hne : name ≠ field.1 := by
        rintro rfl
        exact hfirst (List.mem_map.mpr ⟨_, hlater, rfl⟩)
      obtain ⟨other, _ | found⟩ := field
      · exact ih hrest hlater
      · have hcons : present ((other, some found) :: fields) = (other, found) :: present fields :=
          rfl
        rw [hcons, List.lookup_cons, beq_false_of_ne hne]
        exact ih hrest hlater

/-- The fields of a table are those that it was made of. -/
theorem fieldsOf_present (fields : List (String × Option Toml)) (h : (fields.map (·.1)).Nodup) :
    ∃ field, Manifest.fieldsOf (fields.map (·.1)) (.table (present fields)) = some field ∧
      ∀ name value, (name, value) ∈ fields → field name = value := by
  refine ⟨_, if_pos (List.all_eq_true.mpr fun entry he => ?_), fun _ _ hm => lookup_present h hm⟩
  exact List.contains_iff_mem.mpr (mem_names_of_mem_present he)

theorem asList_map {α : Type} {decode : Toml → Option α} {encode : α → Toml}
    (h : ∀ item, decode (encode item) = some item) (items : List α) :
    Manifest.asList decode (.array (items.map encode)) = some items := by
  rw [Manifest.asList]
  induction items with
  | nil => rfl
  | cons item items ih => simp [List.mapM_cons, h, ih]

/-- A list of items that is left out if there are none. -/
def listOf {α : Type} (encode : α → Toml) (items : List α) : Option Toml :=
  if items = [] then none else some (.array (items.map encode))

theorem withDefault_listOf {α : Type} {decode : Toml → Option α} {encode : α → Toml}
    (h : ∀ item, decode (encode item) = some item) (items : List α) :
    Manifest.withDefault [] (Manifest.asList decode) (listOf encode items) = some items := by
  rw [listOf]
  split
  · next hnone =>
    rw [hnone]
    rfl
  · exact asList_map h items

theorem finishEntries_append (front rest : Entries) :
    finishEntries (front ++ rest) = finishEntries front ++ finishEntries rest := by
  induction front with
  | nil => rfl
  | cons entry front ih =>
    obtain ⟨name, draft⟩ := entry
    rw [List.cons_append, finishEntries, finishEntries, ih, List.cons_append]

theorem finishEntries_optional {α : Type} (name : String) (draft : α → Entries) (item : Option α) :
    finishEntries (item.map fun item => (name, Draft.table .header (draft item))).toList =
      ((item.map fun item => Toml.table (finishEntries (draft item))).map (name, ·)).toList := by
  cases item <;> rfl

theorem finishEntries_repeated {α : Type} (name : String) (draft : α → Entries) (items : List α) :
    finishEntries (repeated name draft items) =
      ((listOf (fun item => .table (finishEntries (draft item))) items).map (name, ·)).toList := by
  rcases List.eq_nil_or_concat items with rfl | ⟨items, last, rfl⟩
  · rfl
  · rw [List.concat_eq_append, repeated_concat, listOf, if_neg (by simp)]
    simp [finishEntries, Draft.finish]

end Canonical

namespace CanonicalManifest

theorem asParameter_drafts (p : SourceParameter) :
    Manifest.asParameter (.table (finishEntries p.drafts)) = some p := by
  obtain ⟨field, hfields, hfield⟩ := fieldsOf_present
    [("name", some (.string p.name)), ("type", some (.string p.type))] (by simp)
  have hname : field "name" = some (.string p.name) := hfield _ _ (by simp)
  have htype : field "type" = some (.string p.type) := hfield _ _ (by simp)
  change Manifest.fieldsOf ["name", "type"] (.table (finishEntries p.drafts)) = some field
    at hfields
  rw [Manifest.asParameter, hfields, Option.bind_eq_bind, Option.bind_some, hname, htype]
  rfl

theorem asDeclaration_drafts (d : SourceDeclaration) :
    Manifest.asDeclaration (.table (finishEntries d.drafts)) = some d := by
  let supertypes := Toml.array (d.supertypes.map .string)
  let parameters := listOf (fun p => .table (finishEntries p.drafts)) d.parameters
  obtain ⟨field, hfields, hfield⟩ := fieldsOf_present [("name", some (.string d.name)),
    ("supertypes", some supertypes), ("param", parameters)] (by simp)
  have hname : field "name" = some (.string d.name) := hfield _ _ (by simp)
  have hsupertypes : field "supertypes" = some supertypes := hfield _ _ (by simp)
  have hparameters : field "param" = parameters := hfield _ _ (by simp)
  have hfinish : finishEntries d.drafts = present [("name", some (.string d.name)),
      ("supertypes", some supertypes), ("param", parameters)] := by
    rw [SourceDeclaration.drafts, finishEntries_append, finishEntries_repeated,
      ← List.append_nil (parameters.map _).toList]
    rfl
  have hstring : ∀ text, Manifest.asString (.string text) = some text := fun _ => rfl
  have hlist : Manifest.withDefault [] (Manifest.asList Manifest.asString) (some supertypes) =
      some d.supertypes := asList_map hstring d.supertypes
  rw [← hfinish] at hfields
  change Manifest.fieldsOf ["name", "supertypes", "param"] _ = some field at hfields
  rw [Manifest.asDeclaration, hfields, Option.bind_eq_bind, Option.bind_some, hname, hsupertypes,
    hlist, hparameters, withDefault_listOf asParameter_drafts]
  rfl

theorem asOutput_drafts (table : OutputTable) :
    Manifest.asOutput (.table (finishEntries table.drafts)) =
      some ({ output := some table } : CanonicalManifest).manifest.output := by
  rcases table with ⟨_ | package, _ | directory⟩ <;> rfl

theorem asScanner_drafts (table : ScannerTable) :
    Manifest.asScanner (.table (finishEntries table.drafts)) =
      some ({ scanner := some table } : CanonicalManifest).manifest.scanner := by
  rcases table with ⟨_ | owner, _ | suffix⟩ <;> rfl

theorem ofToml?_drafts (c : CanonicalManifest) :
    Manifest.ofToml? (.table (finishEntries c.drafts)) = some c.manifest := by
  let output := c.output.map fun table => Toml.table (finishEntries table.drafts)
  let scanner := c.scanner.map fun table => Toml.table (finishEntries table.drafts)
  let declarations := listOf (fun d => .table (finishEntries d.drafts)) c.declarations
  obtain ⟨field, hfields, hfield⟩ := fieldsOf_present [("output", output), ("scanner", scanner),
    ("declaration", declarations)] (by simp)
  have houtput : field "output" = output := hfield _ _ (by simp)
  have hscanner : field "scanner" = scanner := hfield _ _ (by simp)
  have hdeclarations : field "declaration" = declarations := hfield _ _ (by simp)
  have hfinish : finishEntries c.drafts = present [("output", output), ("scanner", scanner),
      ("declaration", declarations)] := by
    rw [drafts, heading, finishEntries_append, finishEntries_append, finishEntries_optional,
      finishEntries_optional, finishEntries_repeated, List.append_assoc,
      ← List.append_nil (declarations.map _).toList]
    rfl
  have hsettings : Manifest.withDefault {} Manifest.asOutput output = some c.manifest.output ∧
      Manifest.withDefault {} Manifest.asScanner scanner = some c.manifest.scanner := by
    obtain ⟨_ | _, _ | _, _⟩ := c
    · exact ⟨rfl, rfl⟩
    · exact ⟨rfl, asScanner_drafts _⟩
    · exact ⟨asOutput_drafts _, rfl⟩
    · exact ⟨asOutput_drafts _, asScanner_drafts _⟩
  rw [← hfinish] at hfields
  change Manifest.fieldsOf ["output", "scanner", "declaration"] _ = some field at hfields
  rw [Manifest.ofToml?, hfields, Option.bind_eq_bind, Option.bind_some, houtput, hsettings.1,
    hscanner, hsettings.2, hdeclarations, withDefault_listOf asDeclaration_drafts]
  rfl

section
variable {c : CanonicalManifest} {lines : List ManifestLine} (hc : c.Plain) (h : c.WrittenAs lines)
include hc h

/-- A text in canonical layout spells the manifest that was written down. -/
theorem decode?_source :
    Manifest.decode? (String.ofList (source lines)) = some c.manifest := by
  obtain ⟨header, hread⟩ := reads?_lines h
  rw [Manifest.decode?, read?_source (c.plain_lines hc h), hread]
  exact c.ofToml?_drafts

/-- So a text in canonical layout is refused only for what is wrong with its manifest. -/
theorem parse_source (fileName : String) :
    Manifest.parse (String.ofList (source lines)) fileName =
      (c.manifest.validate (source lines)).map fun _ => c.manifest := by
  rw [Manifest.parse, decode?_source hc h, String.toList_ofList]
  dsimp only
  cases c.manifest.validate (source lines) <;> rfl

end

end CanonicalManifest
end StyleFamily
