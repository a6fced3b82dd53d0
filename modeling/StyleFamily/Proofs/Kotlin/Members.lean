import Mathlib.Data.List.Basic
import StyleFamily.Kotlin.Unit
import StyleFamily.Proofs.Layout.Paragraph
import StyleFamily.Proofs.Text.Characters

/-!
# Reading members back

A contract shows each of its members in a paragraph of its own, by name and type, and ends with its
companion. The names and types of the members can therefore be read off whatever follows them.
-/
namespace StyleFamily

/-- The property that declares a member in the contract of its group. -/
def Member.declared (member : Member) : PropertySpec :=
  { name := member.name, type := member.type, doc := some member.doc }

namespace Kotlin
open Fragment

/-- What a contract shows of a member. -/
def shown (member : Member) : String × String := (member.name, spellType member.type)

/-- A member whose declaration can be read back. -/
structure Legible (member : Member) : Prop where
  name : isIdentifier member.name = true
  doc : Text.Inline member.doc
  type : Text.Inline (spellType member.type)

/-- The line that declares a member. -/
def declaration (member : Member) : String :=
  "val " ++ safe member.name ++ ": " ++ spellType member.type

theorem paragraph_declared (member : Member) :
    paragraph 1 (propertyNode member.declared).fragments =
      '\n' :: (row 1 ("/** " ++ member.doc ++ " */") ++ row 1 (declaration member)) := by
  simp [paragraph, PropertyNode.fragments, propertyNode, Member.declared, Fragment.docs, printedAll,
    printed, PropertyNode.signature, declaration]

theorem Legible.inline {member : Member} (h : Legible member) :
    Text.Inline (declaration member) := by
  have hname : Text.Inline (safe member.name) := notMem_safe h.name (by decide) (by decide)
  rw [declaration, inline_append, inline_append, inline_append]
  exact ⟨⟨⟨by decide, hname⟩, by decide⟩, h.type⟩

/-- The name ends at the colon, for there is none in it. -/
theorem declaration_inj {a b : Member} (ha : Legible a) (hb : Legible b)
    (h : declaration a = declaration b) : shown a = shown b := by
  have hcolon : ∀ {member : Member}, Legible member → ':' ∉ (safe member.name).toList :=
    fun hm => notMem_safe hm.name (by decide) (by decide)
  rw [← String.toList_inj] at h
  simp only [declaration, String.append_assoc, String.toList_append] at h
  obtain ⟨hname, htype⟩ :=
    append_separator_inj (hcolon ha) (hcolon hb) (List.append_cancel_left h)
  rw [shown, shown, safe_inj ha.name hb.name (String.toList_inj.mp hname),
    String.toList_inj.mp (List.cons.inj htype).2]

/-- The members of a contract end where the companion begins. -/
theorem members_append_inj {first second : List Member} (hf : ∀ member ∈ first, Legible member)
    (hs : ∀ member ∈ second, Legible member) {r s : List Char}
    (h : first.flatMap (fun member => paragraph 1 (propertyNode member.declared).fragments) ++
        '\n' :: (Page.marginOf 1 ++ 'c' :: r) =
      second.flatMap (fun member => paragraph 1 (propertyNode member.declared).fragments) ++
        '\n' :: (Page.marginOf 1 ++ 'c' :: s)) :
    first.map shown = second.map shown := by
  have hopening : ∀ {member : Member} {r s : List Char},
      paragraph 1 (propertyNode member.declared).fragments ++ r ≠
        '\n' :: (Page.marginOf 1 ++ 'c' :: s) := by
    intro member r s he
    simp [paragraph_declared, row] at he
  induction first generalizing second with
  | nil =>
    cases second with
    | nil => rfl
    | cons b second => exact absurd h.symm (by simpa using hopening)
  | cons a first ih =>
    cases second with
    | nil => exact absurd h (by simpa using hopening)
    | cons b second =>
      obtain ⟨ha, hfirst⟩ := List.forall_mem_cons.mp hf
      obtain ⟨hb, hsecond⟩ := List.forall_mem_cons.mp hs
      rw [List.flatMap_cons, List.flatMap_cons, paragraph_declared, paragraph_declared,
        List.append_assoc, List.append_assoc, List.cons_append, List.cons_append,
        List.append_assoc, List.append_assoc] at h
      have hdoc : ∀ {member : Member}, Legible member →
          Text.Inline ("/** " ++ member.doc ++ " */") := by
        intro member hm
        rw [inline_append, inline_append]
        exact ⟨⟨by decide, hm.doc⟩, by decide⟩
      obtain ⟨_, hrest⟩ := row_append_inj (hdoc ha) (hdoc hb) (List.cons.inj h).2
      obtain ⟨hline, hrest⟩ := row_append_inj ha.inline hb.inline hrest
      rw [List.map_cons, List.map_cons, declaration_inj ha hb hline, ih hfirst hsecond hrest]

end Kotlin
end StyleFamily
