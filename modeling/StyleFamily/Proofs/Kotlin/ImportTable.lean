import Mathlib.Data.List.Nodup
import StyleFamily.Kotlin.Symbol
import StyleFamily.Proofs.Text.ByteOrder

/-!
# The table of imports

Symbols are kept by package, but the import lines are told apart by qualified names, and two symbols
may have the same one. Main statement: after any calls on an empty table the lines are those of the
qualified names asked for outside the unit's own package, in the order of their bytes and each of
them once. They depend on which symbols were asked for, and not on the calls that did.
-/
namespace StyleFamily.Kotlin

theorem mem_insertSorted {text other : String} {texts : List String} :
    other ∈ insertSorted text texts ↔ other = text ∨ other ∈ texts := by
  induction texts with
  | nil => simp [insertSorted]
  | cons first rest ih =>
    rw [insertSorted]
    split
    · simp
    · next hlt =>
      split
      · simp [ih, or_left_comm]
      · next hgt =>
        have he : text = first :=
          String.le_antisymm (String.not_lt.mp hgt) (String.not_lt.mp hlt)
        simp [he]

theorem mem_sortedOnce {text : String} {texts : List String} :
    text ∈ sortedOnce texts ↔ text ∈ texts := by
  induction texts with
  | nil => simp [sortedOnce]
  | cons first rest ih =>
    rw [sortedOnce, List.foldr_cons, mem_insertSorted, List.mem_cons, ← sortedOnce, ih]

theorem pairwise_insertSorted {text : String} {texts : List String}
    (h : texts.Pairwise (· < ·)) : (insertSorted text texts).Pairwise (· < ·) := by
  induction texts with
  | nil => exact List.pairwise_singleton _ _
  | cons first rest ih =>
    obtain ⟨hfirst, hrest⟩ := List.pairwise_cons.mp h
    rw [insertSorted]
    split
    · next hlt =>
      refine List.pairwise_cons.mpr ⟨fun other ho => ?_, h⟩
      rcases List.mem_cons.mp ho with rfl | hr
      · exact hlt
      · exact String.lt_trans hlt (hfirst other hr)
    · split
      · next hgt =>
        refine List.pairwise_cons.mpr ⟨fun other ho => ?_, ih hrest⟩
        rcases mem_insertSorted.mp ho with rfl | hr
        · exact hgt
        · exact hfirst other hr
      · exact h

theorem pairwise_sortedOnce (texts : List String) : (sortedOnce texts).Pairwise (· < ·) := by
  induction texts with
  | nil => exact List.Pairwise.nil
  | cons text rest ih => exact pairwise_insertSorted ih

/-- Lines in the order of their bytes are known by their members. -/
theorem eq_of_pairwise_bytes {first second : List String}
    (hf : first.Pairwise fun a b => Text.bytes a < Text.bytes b)
    (hs : second.Pairwise fun a b => Text.bytes a < Text.bytes b)
    (h : ∀ line, line ∈ first ↔ line ∈ second) : first = second := by
  have hnodup : ∀ {lines : List String},
      lines.Pairwise (fun a b => Text.bytes a < Text.bytes b) → lines.Nodup := by
    intro lines hl
    refine hl.imp ?_
    rintro a _ hlt rfl
    exact List.lt_irrefl _ hlt
  refine List.Perm.eq_of_pairwise (fun a b _ _ hab hba => ?_) hf hs
    ((List.perm_ext_iff_of_nodup (hnodup hf) (hnodup hs)).mpr h)
  exact absurd hba (List.lt_asymm hab)

namespace ImportTable

/-- The symbols that stand in a table, package by package. -/
def symbols (table : ImportTable) : List Symbol :=
  table.entries.flatMap fun entry => entry.names.map (Symbol.mk entry.package)

theorem mem_symbols_add {table : ImportTable} {symbol other : Symbol} :
    other ∈ (table.add symbol).symbols ↔ other = symbol ∨ other ∈ table.symbols := by
  obtain ⟨entries⟩ := table
  simp only [add, symbols]
  induction entries with
  | nil => simp [insert, insertSorted]
  | cons entry rest ih =>
    rw [insert]
    split
    · next hpackage =>
      obtain ⟨package, name⟩ := symbol
      obtain rfl : entry.package = package := hpackage
      simp [mem_insertSorted, or_and_right, exists_or, or_assoc, eq_comm]
    · rw [List.flatMap_cons, List.flatMap_cons, List.mem_append, List.mem_append, ih]
      exact or_left_comm

theorem has_cons {entry : PackageImports} {rest : List PackageImports} {symbol : Symbol} :
    has ⟨entry :: rest⟩ symbol =
      if entry.package = symbol.package then entry.names.contains symbol.name
      else has ⟨rest⟩ symbol := by
  rw [has, List.find?_cons]
  by_cases hpackage : entry.package = symbol.package <;> simp [has, hpackage]

/-- A name that joins those of its package adds its symbol and no other. -/
theorem has_insertSorted {package name : String} {names : List String}
    {rest : List PackageImports} {symbol : Symbol} :
    has ⟨⟨package, insertSorted name names⟩ :: rest⟩ symbol = true ↔
      symbol = ⟨package, name⟩ ∨ has ⟨⟨package, names⟩ :: rest⟩ symbol = true := by
  obtain ⟨wanted, part⟩ := symbol
  rw [has_cons, has_cons]
  by_cases hpackage : package = wanted
  · simp [hpackage, mem_insertSorted]
  · have hother : (⟨wanted, part⟩ : Symbol) ≠ ⟨package, name⟩ := by
      rintro ⟨⟩
      exact hpackage rfl
    simp [hpackage, hother]

/-- An entry that is passed by still answers for its own package. -/
theorem has_add {table : ImportTable} {symbol other : Symbol} :
    (table.add symbol).has other = true ↔ other = symbol ∨ table.has other = true := by
  obtain ⟨entries⟩ := table
  rw [add]
  induction entries with
  | nil =>
    have hempty : has {} other = false := rfl
    rw [insert, has_insertSorted, has_cons, hempty]
    simp
  | cons entry rest ih =>
    rw [insert]
    split
    · next hown =>
      obtain ⟨package, name⟩ := symbol
      obtain rfl : entry.package = package := hown
      exact has_insertSorted
    · next hown =>
      rw [has_cons, has_cons]
      split
      · next hwanted =>
        have hother : other ≠ symbol := fun he => hown (he ▸ hwanted)
        simp [hother]
      · exact ih

/-- What holds after one more symbol exactly if it held before or that symbol is the one sought, holds
after several exactly if it held before or the one sought is among them. -/
theorem extend_iff_of_add (P : ImportTable → Prop) {symbol : Symbol}
    (hadd : ∀ table other, P (add table other) ↔ symbol = other ∨ P table) (table : ImportTable)
    (symbols : List Symbol) : P (table.extend symbols) ↔ symbol ∈ symbols ∨ P table := by
  induction symbols generalizing table with
  | nil => simp [extend]
  | cons first rest ih =>
    rw [extend, List.foldl_cons, ← extend, ih, hadd, List.mem_cons, or_assoc, or_left_comm]

theorem mem_symbols_extend_empty {symbols : List Symbol} {symbol : Symbol} :
    symbol ∈ (extend {} symbols).symbols ↔ symbol ∈ symbols := by
  rw [extend_iff_of_add (symbol ∈ ·.symbols) fun _ _ => mem_symbols_add]
  exact or_iff_left List.not_mem_nil

theorem has_extend_empty {symbols : List Symbol} {symbol : Symbol} :
    (extend {} symbols).has symbol = true ↔ symbol ∈ symbols := by
  rw [extend_iff_of_add (·.has symbol = true) fun _ _ => has_add]
  exact or_iff_left Bool.false_ne_true

/-- The qualified names of the import lines are those of the symbols from other packages. -/
theorem mem_lines {table : ImportTable} {package line : String} :
    line ∈ table.lines package ↔
      ∃ symbol ∈ table.symbols, symbol.package ≠ package ∧ line = "import " ++ symbol.qualified := by
  simp only [lines, List.mem_map, mem_sortedOnce, List.mem_flatMap, List.mem_filter,
    decide_eq_true_eq, symbols]
  constructor
  · rintro ⟨_, ⟨entry, ⟨he, hp⟩, name, hn, rfl⟩, rfl⟩
    exact ⟨⟨entry.package, name⟩, ⟨entry, he, name, hn, rfl⟩, hp, rfl⟩
  · rintro ⟨_, ⟨entry, he, name, hn, rfl⟩, hp, rfl⟩
    exact ⟨_, ⟨entry, ⟨he, hp⟩, name, hn, rfl⟩, rfl⟩

/-- The lines of any table stand in the order of their bytes, so none stands twice. -/
theorem lines_pairwise (table : ImportTable) (package : String) :
    (table.lines package).Pairwise fun a b => Text.bytes a < Text.bytes b := by
  rw [lines, List.pairwise_map]
  refine (pairwise_sortedOnce _).imp fun {a b} hlt => ?_
  rw [Text.bytes_lt_iff, String.lt_iff, String.toList_append, String.toList_append]
  exact List.append_left_lt (String.lt_iff.mp hlt)

/-- A call that asks for symbols. -/
inductive Call
  | add (symbol : Symbol)
  | extend (symbols : List Symbol)

/-- The symbols that a call asks for. -/
def Call.symbols : Call → List Symbol
  | .add symbol => [symbol]
  | .extend symbols => symbols

def call (table : ImportTable) : Call → ImportTable
  | .add symbol => table.add symbol
  | .extend symbols => table.extend symbols

/-- An empty table after calls. -/
def after (calls : List Call) : ImportTable := calls.foldl call {}

/-- All symbols that calls ask for. -/
def asked (calls : List Call) : List Symbol := calls.flatMap Call.symbols

/-- It makes no difference to a table which call a symbol is part of. -/
theorem after_eq (calls : List Call) : after calls = extend {} (asked calls) := by
  have hcall : call = fun table request => request.symbols.foldl add table := by
    funext table request
    cases request <;> rfl
  rw [after, hcall, extend, asked, List.foldl_flatMap]

theorem mem_symbols_after {calls : List Call} {symbol : Symbol} :
    symbol ∈ (after calls).symbols ↔ symbol ∈ asked calls := by
  rw [after_eq, mem_symbols_extend_empty]

theorem has_after {calls : List Call} {symbol : Symbol} :
    (after calls).has symbol = true ↔ symbol ∈ asked calls := by
  rw [after_eq, has_extend_empty]

/-- After any calls on an empty table, its lines for a package are those of the qualified names that
were asked for in other packages, in the order of their bytes. They are the same after any calls
that ask for the same symbols, be it in another order, again, or several at once. A name that is
split in several ways is left out only if the package is that of every split that was asked for. -/
theorem import_lines_canonical (calls : List Call) (package : String) :
    ((after calls).lines package).Pairwise (fun a b => Text.bytes a < Text.bytes b) ∧
      (∀ line ∈ (after calls).lines package,
        ∃ symbol ∈ asked calls, line = "import " ++ symbol.qualified) ∧
      (∀ wanted : Symbol, "import " ++ wanted.qualified ∈ (after calls).lines package ↔
        ∃ symbol ∈ asked calls, symbol.package ≠ package ∧
          symbol.qualified = wanted.qualified) ∧
      (∀ other : List Call, (∀ symbol, symbol ∈ asked other ↔ symbol ∈ asked calls) →
        (after other).lines package = (after calls).lines package) ∧
      ∀ symbol, (after calls).has symbol = true ↔ symbol ∈ asked calls := by
  refine ⟨lines_pairwise _ _, fun line hl => ?_, fun wanted => ?_, fun other hsame => ?_,
    fun _ => has_after⟩
  · obtain ⟨symbol, hs, _, rfl⟩ := mem_lines.mp hl
    exact ⟨symbol, mem_symbols_after.mp hs, rfl⟩
  · simp only [mem_lines, mem_symbols_after, String.append_right_inj, eq_comm]
  · refine eq_of_pairwise_bytes (lines_pairwise _ _) (lines_pairwise _ _) fun line => ?_
    simp only [mem_lines, mem_symbols_after, hsame]

/-- A name that is asked for in the unit's own package and in the one around it, and then once more in
the opposite order: it is imported from the one around. -/
theorem split_import_lines_canonical :
    let calls : List Call := [.add ⟨composeUnit, "Dp"⟩,
      .extend [⟨kitShadow, "Shadow"⟩, ⟨"androidx.compose.ui", "unit.Dp"⟩]]
    let again := calls.reverse ++ calls
    let line := "import androidx.compose.ui.unit.Dp"
    (after again).lines composeUnit = [line, "import com.sdds.compose.uikit.shadow.Shadow"] ∧
      (∃ symbol ∈ asked again, line = "import " ++ symbol.qualified) ∧
      (after calls).lines composeUnit = (after again).lines composeUnit ∧
      (after again).has ⟨composeUnit, "Dp"⟩ = true := by
  intro calls again line
  have hlines : (after again).lines composeUnit =
      [line, "import com.sdds.compose.uikit.shadow.Shadow"] := by
    decide +kernel
  obtain ⟨-, hasked, -, hsame, hhas⟩ := import_lines_canonical again composeUnit
  refine ⟨hlines, hasked _ (by simp [hlines]), hsame calls fun symbol => ?_,
    (hhas _).mpr (by decide)⟩
  simp [asked, again]

end ImportTable
end StyleFamily.Kotlin
