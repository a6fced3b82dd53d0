import Mathlib.Data.List.Basic
import StyleFamily.Kotlin.Renderer
import StyleFamily.Manifest.Validation
import StyleFamily.Proofs.Layout.Lines
import StyleFamily.Proofs.Manifest.Acceptance
import StyleFamily.Proofs.Text.Pieces

/-!
# The characters of names

An identifier holds letters, digits and underscores only, and a package those and its dots. Whatever
else stands in a line of source therefore tells where a name in it ends. A name that had to be
quoted is still told from all others.
-/
namespace StyleFamily

theorem isNamePart_of_isNameStart {c : Char} (h : isNameStart c = true) : isNamePart c = true := by
  rw [isNameStart, Bool.or_eq_true] at h
  rw [isNamePart, Bool.or_eq_true, Char.isAlphanum, Bool.or_eq_true]
  rcases h with h | h
  · exact .inl (.inl h)
  · exact .inr h

theorem ne_empty_of_isIdentifier {name : String} (h : isIdentifier name = true) : name ≠ "" := by
  rintro rfl
  exact absurd h (by decide)

theorem isNamePart_of_mem {name : String} (h : isIdentifier name = true) {c : Char}
    (hc : c ∈ name.toList) : isNamePart c = true := by
  unfold isIdentifier at h
  cases hn : name.toList with
  | nil => simp [hn] at hc
  | cons first rest =>
    simp only [hn, Bool.and_eq_true, List.all_eq_true] at h
    rw [hn] at hc
    rcases List.mem_cons.mp hc with rfl | hr
    · exact isNamePart_of_isNameStart h.1
    · exact h.2 c hr

theorem isIdentifier_append {name ending : String} (hn : isIdentifier name = true)
    (he : ending.toList.all isNamePart = true) : isIdentifier (name ++ ending) = true := by
  unfold isIdentifier at hn ⊢
  rw [String.toList_append]
  cases hc : name.toList with
  | nil => simp [hc] at hn
  | cons first rest =>
    simp only [hc, Bool.and_eq_true] at hn
    simp [hn.1, hn.2, he]

/-- An identifier after another one keeps it an identifier. -/
theorem isIdentifier_append_name {front name : String} (hf : isIdentifier front = true)
    (hn : isIdentifier name = true) : isIdentifier (front ++ name) = true :=
  isIdentifier_append hf (List.all_eq_true.mpr fun _ hc => isNamePart_of_mem hn hc)

theorem notMem_of_isIdentifier {name : String} (h : isIdentifier name = true) {c : Char}
    (hc : isNamePart c = false) : c ∉ name.toList := by
  intro hm
  rw [isNamePart_of_mem h hm] at hc
  exact absurd hc (by decide)

theorem inline_of_isIdentifier {name : String} (h : isIdentifier name = true) :
    Text.Inline name :=
  notMem_of_isIdentifier h (by decide)

theorem unbroken_of_isIdentifier {name : String} (h : isIdentifier name = true) :
    Text.Unbroken name :=
  ⟨inline_of_isIdentifier h, notMem_of_isIdentifier h (by decide)⟩

theorem isIdentifier_of_package {package : String} (h : packageFault? package = none) :
    ∀ segment ∈ Text.splitAt '.' package, isIdentifier segment = true := by
  intro segment hs
  simp only [packageFault?] at h
  split at h
  · simp at h
  · split at h
    · simp at h
    · rw [Option.map_eq_none_iff, List.findSome?_eq_none_iff] at h
      exact nameFault_eq_none.mp (h segment hs)

/-- A valid package is not empty and stays in its line. -/
theorem inline_of_package {package : String} (h : packageFault? package = none) :
    package ≠ "" ∧ Text.Inline package := by
  have hne : package ≠ "" := by
    rintro rfl
    simp [packageFault?] at h
  refine ⟨hne, fun hbreak => ?_⟩
  rcases @mem_pieces '.' _ _ hbreak with hdot | ⟨piece, hp, hm⟩
  · exact absurd hdot (by decide)
  · refine inline_of_isIdentifier (isIdentifier_of_package h _ (List.mem_map_of_mem hp)) ?_
    rwa [String.toList_ofList]

namespace Kotlin

/-- The characters that quote a name. -/
def quotes : List Char := (naming.opening ++ naming.closing).toList

theorem mem_safe {name : String} {c : Char} (h : c ∈ (safe name).toList) :
    c ∈ name.toList ∨ c ∈ naming.opening.toList := by
  have hclosing : naming.closing = naming.opening := rfl
  rw [safe, NamingConvention.safe] at h
  split at h
  · simp only [hclosing, String.toList_append, List.mem_append] at h
    tauto
  · exact .inl h

theorem notMem_safe {name : String} (h : isIdentifier name = true) {c : Char}
    (hc : isNamePart c = false) (hq : c ∉ naming.opening.toList) : c ∉ (safe name).toList :=
  fun hm => (mem_safe hm).elim (notMem_of_isIdentifier h hc) hq

theorem unbroken_safe {name : String} (h : isIdentifier name = true) :
    Text.Unbroken (safe name) :=
  ⟨notMem_safe h (by decide) (by decide), notMem_safe h (by decide) (by decide)⟩

theorem exists_cons_safe {name : String} (h : isIdentifier name = true) :
    ∃ c rest, (safe name).toList = c :: rest := by
  have hname : name.toList ≠ [] := by
    intro he
    simp [isIdentifier, he] at h
  refine List.exists_cons_of_ne_nil ?_
  rw [safe, NamingConvention.safe]
  split
  · simp [hname]
  · exact hname

/-- The quote opens no identifier. -/
theorem ne_quoted {name rest : String} (h : isIdentifier name = true) :
    name ≠ naming.opening ++ rest := by
  rintro rfl
  exact absurd (isNamePart_of_mem h (c := naming.opening.toList.head (by decide))
    (by rw [String.toList_append]; exact List.mem_append_left _ (List.head_mem _))) (by decide)

/-- A name is no reserved word if none of them ends like it. -/
theorem unreserved_append (front : String) {ending : String}
    (he : ∀ word ∈ naming.reserved, ¬ending.toList <:+ word.toList) :
    naming.isReserved (front ++ ending) = false := by
  rw [NamingConvention.isReserved, List.contains_eq_mem, decide_eq_false_iff_not]
  intro hm
  refine he _ hm ?_
  rw [String.toList_append]
  exact List.suffix_append _ _

/-- Quoting keeps names apart. -/
theorem safe_inj {a b : String} (ha : isIdentifier a = true) (hb : isIdentifier b = true)
    (h : safe a = safe b) : a = b := by
  rw [safe, safe, NamingConvention.safe, NamingConvention.safe] at h
  split at h <;> split at h
  · rw [← String.toList_inj] at h
    exact String.toList_inj.mp (by simpa using h)
  · exact absurd h.symm (by rw [String.append_assoc]; exact ne_quoted hb)
  · exact absurd h (by rw [String.append_assoc]; exact ne_quoted ha)
  · exact h

end Kotlin
end StyleFamily
