import Mathlib.Data.List.Basic
import Mathlib.Data.List.Induction
import StyleFamily.Files.Sink
import StyleFamily.Files.Tree
import StyleFamily.Proofs.Files.Frame

/-!
# How joined paths are spelled

A path that plain names were joined to is followed by these names after its own, and its parent is
spelled as the path was before the last name came. What joining adds depends on the end of a path
only, so a package's directories may be joined to one another before they are joined to an output
directory.
-/
namespace StyleFamily

/-- A name that a path spells as one component, and that leads down. -/
structure IsPlain (name : String) : Prop where
  nonempty : name ≠ ""
  dot : name ≠ "."
  up : name ≠ ".."
  separator : '/' ∉ name.toList

namespace IsPlain
variable {name : String} (h : IsPlain name)
include h

theorem toList_ne : name.toList ≠ [] := fun he => h.nonempty (by simpa using he)

theorem notIdle : Path.isIdle name.toList = false := by
  have hdot : name.toList ≠ ['.'] := fun he => h.dot (String.toList_inj.mp he)
  simp [Path.isIdle, h.toList_ne, hdot]

theorem relative : (⟨name⟩ : Path).isAbsolute = false := by
  obtain ⟨c, rest, he⟩ := List.exists_cons_of_ne_nil h.toList_ne
  have hc : c ≠ '/' := by
    rintro rfl
    exact h.separator (he ▸ List.mem_cons_self)
  simp [Path.isAbsolute, he, hc]

theorem pieces_eq : Text.pieces '/' name.toList = [name.toList] := pieces_of_notMem h.separator

theorem draft : IsPlain (name ++ ".tmp") := by
  obtain ⟨hempty, hdot, hup⟩ := Tree.draft_segment_ne name
  refine ⟨hempty, hdot, hup, ?_⟩
  have hending : '/' ∉ ".tmp".toList := by decide
  simp [h.separator]

end IsPlain

namespace Path

/-- What stands before a name that is joined to a path. -/
def stem (path : Path) : String :=
  if path.text.toList.getLast?.getD '/' = '/' then path.text else path.text ++ "/"

theorem join_relative {path part : Path} (h : part.isAbsolute = false) :
    path.join part = ⟨path.stem ++ part.text⟩ := by
  rw [join, if_neg (by simp [h]), stem]
  split <;> rfl

/-- A stem ends where a name can begin. -/
theorem stem_cases (path : Path) :
    path.text = "" ∧ path.stem = "" ∨
      (∃ front, path.text = front ++ "/" ∧ path.stem = front ++ "/") ∨
      path.text ≠ "" ∧ path.stem = path.text ++ "/" := by
  rcases hl : path.text.toList.getLast? with _ | c
  · have he : path.text = "" := by simpa using List.getLast?_eq_none_iff.mp hl
    exact .inl ⟨he, by rw [stem, hl, he]; rfl⟩
  · have hne : path.text ≠ "" := by
      intro he
      rw [he] at hl
      simp at hl
    by_cases hc : c = '/'
    · obtain ⟨front, hf⟩ := List.getLast?_eq_some_iff.mp hl
      have htext : path.text = String.ofList front ++ "/" := by
        rw [← String.toList_inj, hf, hc]
        simp
      refine .inr (.inl ⟨String.ofList front, htext, ?_⟩)
      rw [stem, hl, if_pos (by simpa using hc), htext]
    · exact .inr (.inr ⟨hne, by rw [stem, hl, if_neg (by simpa using hc)]⟩)

theorem last_stem (path : Path) : path.stem.toList.getLast?.getD '/' = '/' := by
  rcases path.stem_cases with ⟨_, hs⟩ | ⟨front, _, hs⟩ | ⟨_, hs⟩ <;> simp [hs]

theorem stem_join {path part : Path} (h : part.isAbsolute = false) :
    (path.join part).stem = path.stem ++ part.stem := by
  rcases hl : part.text.toList.getLast? with _ | c
  · have he : part.text = "" := by simpa using List.getLast?_eq_none_iff.mp hl
    have hpart : part.stem = "" := by rw [stem, hl, he]; rfl
    rw [join_relative h, stem, String.toList_append, List.getLast?_append, hl, Option.none_or,
      if_pos path.last_stem, he, hpart]
  · have hpart : part.stem = if c = '/' then part.text else part.text ++ "/" := by
      rw [stem, hl, Option.getD_some]
    rw [join_relative h, stem, String.toList_append, List.getLast?_append, hl, Option.some_or,
      Option.getD_some, hpart]
    by_cases hc : c = '/'
    · rw [if_pos hc, if_pos hc]
    · rw [if_neg hc, if_neg hc, String.append_assoc]

/-- The path with names joined to it one after another. -/
def below (path : Path) (names : List String) : Path :=
  names.foldl (fun (path : Path) name => path.join ⟨name⟩) path

@[simp] theorem below_nil (path : Path) : path.below [] = path := rfl

theorem below_snoc (path : Path) (names : List String) (name : String) :
    path.below (names ++ [name]) = (path.below names).join ⟨name⟩ := by
  rw [below, List.foldl_append]
  rfl

section
variable {name : String} (hn : IsPlain name) (path : Path)
include hn

/-- Joining adds to the end of a path. -/
theorem text_join : ∃ more, (path.join ⟨name⟩).text = path.text ++ (more ++ name) := by
  rw [join_relative hn.relative]
  rcases path.stem_cases with ⟨ht, hs⟩ | ⟨front, ht, hs⟩ | ⟨_, hs⟩
  · exact ⟨"", by simp [hs, ht]⟩
  · exact ⟨"", by simp [hs, ht]⟩
  · exact ⟨"/", by simp [hs, String.append_assoc]⟩

theorem text_join_ne : (path.join ⟨name⟩).text ≠ "" := by
  obtain ⟨more, hmore⟩ := text_join hn path
  rw [hmore]
  simp [hn.nonempty]

theorem stem_join_name : (path.join ⟨name⟩).stem = path.stem ++ (name ++ "/") := by
  have hlast : name.toList.getLast?.getD '/' ≠ '/' := by
    rw [List.getLast?_eq_getLast_of_ne_nil hn.toList_ne, Option.getD_some]
    exact fun he => hn.separator (he ▸ List.getLast_mem hn.toList_ne)
  have hname : (⟨name⟩ : Path).stem = name ++ "/" := by rw [stem, if_neg hlast]
  rw [stem_join hn.relative, hname]

theorem draft_join : (path.join ⟨name⟩).draft = path.join ⟨name ++ ".tmp"⟩ := by
  rw [join_relative hn.relative, join_relative hn.draft.relative, draft, String.append_assoc]

theorem isAbsolute_join : (path.join ⟨name⟩).isAbsolute = path.isAbsolute := by
  have hrelative := hn.relative
  rw [join_relative hn.relative]
  simp only [isAbsolute, String.toList_append, List.head?_append] at hrelative ⊢
  rcases path.stem_cases with ⟨ht, hs⟩ | ⟨front, ht, hs⟩ | ⟨hne, hs⟩
  · simpa [ht, hs] using hrelative
  · rw [ht, hs]
    cases hf : front.toList <;> simp [hf]
  · have hne' : path.text.toList ≠ [] := fun he => hne (by simpa using he)
    obtain ⟨c, rest, he⟩ := List.exists_cons_of_ne_nil hne'
    simp [hs, he]

/-- The pieces that a joined path is spelled with. -/
theorem splitAt_join : ∃ front, Text.splitAt '/' (path.join ⟨name⟩).text = front ++ [name] ∧
    front.filter (· ≠ "") = Tree.namesOf path := by
  have hsplit : ∀ front : String, Text.splitAt '/' (front ++ "/" ++ name) =
      Text.splitAt '/' front ++ [name] := by
    intro front
    have htext : (front ++ "/" ++ name).toList = front.toList ++ '/' :: name.toList := by simp
    simp only [Text.splitAt]
    rw [htext, pieces_append_separator, hn.pieces_eq, List.map_append, List.map_singleton,
      String.ofList_toList]
  rw [join_relative hn.relative]
  rcases path.stem_cases with ⟨ht, hs⟩ | ⟨front, ht, hs⟩ | ⟨_, hs⟩
  · refine ⟨[], ?_, ?_⟩
    · rw [hs, String.empty_append, Text.splitAt, hn.pieces_eq]
      simp
    · rw [Tree.namesOf, ht]
      rfl
  · refine ⟨Text.splitAt '/' front, by rw [hs, hsplit], ?_⟩
    have hpath : Text.splitAt '/' path.text = Text.splitAt '/' front ++ [""] := by
      have htext : (front ++ "/").toList = front.toList ++ '/' :: [] := by simp
      simp only [Text.splitAt]
      rw [ht, htext, pieces_append_separator, List.map_append]
      rfl
    rw [Tree.namesOf, hpath, List.filter_append]
    simp
  · exact ⟨Text.splitAt '/' path.text, by rw [hs, hsplit], rfl⟩

theorem namesOf_join : Tree.namesOf (path.join ⟨name⟩) = Tree.namesOf path ++ [name] := by
  obtain ⟨front, hsplit, hfront⟩ := splitAt_join hn path
  rw [Tree.namesOf, hsplit, List.filter_append, hfront]
  simp [hn.nonempty]

theorem endsAsDirectory_join : Tree.endsAsDirectory (path.join ⟨name⟩) = false := by
  obtain ⟨front, hsplit, _⟩ := splitAt_join hn path
  simp [Tree.endsAsDirectory, hsplit, hn.nonempty, hn.dot, hn.up]

end

/-- Names are joined at the end, so what holds of a path below another is shown from the end. -/
@[elab_as_elim]
theorem below_induction {motive : List String → Prop} {names : List String}
    (hp : ∀ name ∈ names, IsPlain name) (nil : motive [])
    (snoc : ∀ names name, IsPlain name → motive names → motive (names ++ [name])) :
    motive names := by
  induction names using List.reverseRecOn with
  | nil => exact nil
  | append_singleton names name ih =>
    exact snoc names name (hp name (by simp)) (ih fun other ho => hp other (by simp [ho]))

section
variable {names : List String} (hp : ∀ name ∈ names, IsPlain name) (path : Path)
include hp

theorem namesOf_below : Tree.namesOf (path.below names) = Tree.namesOf path ++ names := by
  refine below_induction hp (by simp) fun names name hn ih => ?_
  rw [below_snoc, namesOf_join hn, ih, List.append_assoc]

theorem isAbsolute_below : (path.below names).isAbsolute = path.isAbsolute := by
  refine below_induction hp rfl fun names name hn ih => ?_
  rw [below_snoc, isAbsolute_join hn, ih]

theorem stem_below :
    (path.below names).stem = path.stem ++ ((⟨""⟩ : Path).below names).stem := by
  refine below_induction hp ?_ fun names name hn ih => ?_
  · have hstem : (⟨""⟩ : Path).stem = "" := rfl
    rw [below_nil, below_nil, hstem, String.append_empty]
  · rw [below_snoc, below_snoc, stem_join_name hn, stem_join_name hn, ih, String.append_assoc]

/-- Every name takes a character of its own. -/
theorem length_below : names.length ≤ (path.below names).text.length := by
  refine below_induction hp (by simp) fun names name hn ih => ?_
  have hname : 0 < name.length := by
    rw [← String.length_toList]
    exact List.length_pos_of_ne_nil hn.toList_ne
  obtain ⟨more, hmore⟩ := text_join hn (path.below names)
  rw [below_snoc, hmore]
  simp only [List.length_append, List.length_singleton, String.length_append]
  omega

/-- Names may be joined to one another before they are joined to a path. -/
theorem join_below (hne : names ≠ []) :
    path.join ((⟨""⟩ : Path).below names) = path.below names := by
  have hrelative := isAbsolute_below hp ⟨""⟩
  rcases names.eq_nil_or_concat with rfl | ⟨front, name, rfl⟩
  · exact absurd rfl hne
  · rw [List.concat_eq_append] at hp hrelative ⊢
    have hn : IsPlain name := hp name (by simp)
    have hfront : ∀ name ∈ front, IsPlain name := fun other ho =>
      hp other (List.mem_append_left _ ho)
    rw [join_relative hrelative, below_snoc, below_snoc, join_relative hn.relative,
      join_relative hn.relative, stem_below hfront path, String.append_assoc]

end

/-- More text after a path that is not the empty one or `.` goes to its segments. -/
theorem anatomy_append {path : Path} (hempty : path.text ≠ "") (hdot : path.text ≠ ".") :
    ∃ start body, path.text.toList = start ++ body ∧
      (Text.pieces '/' body).getLast? = (Text.pieces '/' path.text.toList).getLast? ∧
      (Text.pieces '/' body).filter (!isIdle ·) =
        (Text.pieces '/' path.text.toList).filter (!isIdle ·) ∧
      ∀ more, (⟨path.text ++ more⟩ : Path).anatomy =
        (start, Text.pieces '/' (body ++ more.toList)) := by
  have hlast : ∀ first rest : List Char,
      (first :: Text.pieces '/' rest).getLast? = (Text.pieces '/' rest).getLast? := by
    intro first rest
    obtain ⟨init, last, hp⟩ := exists_pieces '/' rest
    rw [hp, ← List.cons_append, List.getLast?_concat, List.getLast?_concat]
  have hempty' : path.text.toList ≠ [] := fun he => hempty (by simpa using he)
  obtain ⟨c, rest, ht⟩ := List.exists_cons_of_ne_nil hempty'
  by_cases hroot : c = '/'
  · subst hroot
    refine ⟨['/'], rest, ht, by simp [ht, Text.pieces, hlast], by simp [ht, Text.pieces, isIdle],
      fun more => ?_⟩
    simp [anatomy, ht]
  by_cases hhere : ∃ after, c = '.' ∧ rest = '/' :: after
  · obtain ⟨after, rfl, rfl⟩ := hhere
    refine ⟨['.'], '/' :: after, ht, by simp [ht, Text.pieces, hlast],
      by simp [ht, Text.pieces, isIdle], fun more => ?_⟩
    simp [anatomy, ht]
  · refine ⟨[], c :: rest, ht, by rw [ht], by rw [ht], fun more => ?_⟩
    rw [anatomy, String.toList_append, ht, List.cons_append]
    rcases rest with _ | ⟨d, after⟩
    · have hdot' : c ≠ '.' := by
        rintro rfl
        exact hdot (String.toList_inj.mp ht)
      split <;> simp_all
    · split <;> simp_all

theorem withoutIdleEnd_snoc {segments : List (List Char)} {last : List Char}
    (h : isIdle last = false) : withoutIdleEnd (segments ++ [last]) = segments ++ [last] := by
  simp [withoutIdleEnd, h]

/-- What stands above a name is spelled as it was before the name came. -/
theorem parent?_join {between name : String} (hb : IsPlain between) (hn : IsPlain name)
    (path : Path) :
    ((path.join ⟨between⟩).join ⟨name⟩).parent? = some (path.join ⟨between⟩) := by
  have hstem : (path.join ⟨between⟩).stem = (path.join ⟨between⟩).text ++ "/" := by
    rw [stem_join_name hb, join_relative hb.relative, String.append_assoc]
  obtain ⟨front, hsplit, _⟩ := splitAt_join hb path
  rw [join_relative hn.relative, hstem]
  generalize hq : path.join ⟨between⟩ = q at hsplit
  have hends : ∀ {text}, q.text = text → (Text.splitAt '/' text).getLast? = some between := by
    rintro _ rfl
    rw [hsplit, List.getLast?_concat]
  have hempty : q.text ≠ "" := fun he =>
    hb.nonempty (Option.some.inj (hends he)).symm
  have hdot : q.text ≠ "." := fun he => hb.dot (Option.some.inj (hends he)).symm
  obtain ⟨start, body, htext, hlast, _, hmore⟩ := anatomy_append hempty hdot
  obtain ⟨init, hinit⟩ : ∃ init, Text.pieces '/' body = init ++ [between.toList] := by
    have hwhole := hends rfl
    rw [Text.splitAt, List.getLast?_map, ← hlast, Option.map_eq_some_iff] at hwhole
    obtain ⟨last, hl, rfl⟩ := hwhole
    rw [String.toList_ofList]
    exact List.getLast?_eq_some_iff.mp hl
  have hanatomy : (⟨q.text ++ "/" ++ name⟩ : Path).anatomy =
      (start, init ++ [between.toList] ++ [name.toList]) := by
    have hname : body ++ ("/" ++ name).toList = body ++ '/' :: name.toList := by simp
    rw [String.append_assoc, hmore, hname, pieces_append_separator, hn.pieces_eq, hinit]
  have hrest : start ++ ['/'].intercalate (init ++ [between.toList]) = q.text.toList := by
    rw [← hinit, intercalate_pieces, htext]
  rw [parent?, hanatomy]
  simp only [withoutIdleEnd_snoc hn.notIdle]
  split
  · next hnil => simp at hnil
  · simp only [List.dropLast_concat, withoutIdleEnd_snoc hb.notIdle, hrest, String.ofList_toList]

theorem parent?_below {names : List String} {name : String} (hp : ∀ name ∈ names, IsPlain name)
    (hn : IsPlain name) (hne : names ≠ []) (path : Path) :
    ((path.below names).join ⟨name⟩).parent? = some (path.below names) := by
  rcases names.eq_nil_or_concat with rfl | ⟨front, between, rfl⟩
  · exact absurd rfl hne
  · rw [List.concat_eq_append] at hp ⊢
    rw [below_snoc]
    exact parent?_join (hp between (by simp)) hn _

theorem components_pieces (path : Path) :
    path.components.2 = (Text.pieces '/' path.text.toList).filter (!isIdle ·) := by
  by_cases hempty : path.text = ""
  · rw [components, anatomy, hempty]
    decide
  by_cases hdot : path.text = "."
  · rw [components, anatomy, hdot]
    decide
  · obtain ⟨start, body, _, _, hfilter, hmore⟩ := anatomy_append hempty hdot
    have hanatomy : path.anatomy = (start, Text.pieces '/' body) := by
      simpa using hmore ""
    rw [components, hanatomy, hfilter]

/-- The components of a path are its names without the idle ones. -/
theorem components_names (path : Path) :
    path.components.2.map String.ofList = (Tree.namesOf path).filter (· ≠ ".") := by
  have hidle : ∀ piece : List Char, (!isIdle piece) =
      (decide (String.ofList piece ≠ ".") && decide (String.ofList piece ≠ "")) := by
    intro piece
    have hdot : String.ofList piece = "." ↔ piece = ['.'] := by
      rw [← String.toList_inj, String.toList_ofList]
      rfl
    have hempty : String.ofList piece = "" ↔ piece = [] := by
      rw [← String.toList_inj, String.toList_ofList]
      rfl
    rw [Bool.eq_iff_iff]
    simp [isIdle, hdot, hempty, and_comm]
  rw [components_pieces, Tree.namesOf, Text.splitAt, List.filter_filter, List.filter_map]
  simp only [hidle, Function.comp_def]

/-- Below one path, the same place is reached by the same names only. -/
theorem same_below {names others : List String} (hn : ∀ name ∈ names, IsPlain name)
    (ho : ∀ name ∈ others, IsPlain name) (path : Path) :
    (path.below names).same (path.below others) = true ↔ names = others := by
  refine ⟨fun h => ?_, fun h => by rw [h, same_refl]⟩
  have hkept : ∀ {list : List String}, (∀ name ∈ list, IsPlain name) →
      (path.below list).components.2.map String.ofList =
        (Tree.namesOf path).filter (· ≠ ".") ++ list := by
    intro list hl
    have hall : list.filter (· ≠ ".") = list :=
      List.filter_eq_self.mpr fun name hm => by simpa using (hl name hm).dot
    rw [components_names, namesOf_below hl, List.filter_append, hall]
  have hsame : (path.below names).components = (path.below others).components := by
    simpa [same] using h
  have hlists := hkept hn
  rw [hsame, hkept ho] at hlists
  exact (List.append_cancel_left hlists).symm

end Path
end StyleFamily
