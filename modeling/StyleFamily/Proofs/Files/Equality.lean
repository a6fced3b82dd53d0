import Mathlib.Logic.Relation
import StyleFamily.Files.Sink
import StyleFamily.Proofs.Files.Spelling

/-!
# When two spellings are one path

Two spellings are the same path exactly if one becomes the other by leaving out repeated and
trailing separators and a `.` after a separator, or by putting them in. So `..` and every other
name keep their places. A joined path has the components of its parts one after another, where a
part with a root stands for itself.
-/
namespace StyleFamily

namespace Path

theorem same_iff {p q : Path} : p.same q = true ↔ p.components = q.components := by
  simp [same]

theorem same_congr {p q : Path} (h : p.same q = true) (r : Path) : p.same r = q.same r := by
  rw [same, same, same_iff.mp h]

/-- Something that carries no meaning is left out. -/
inductive Tidies : List Char → List Char → Prop
  | repeated (front rest : List Char) : Tidies (front ++ '/' :: '/' :: rest) (front ++ '/' :: rest)
  | trailing {front : List Char} (h : front ≠ []) : Tidies (front ++ ['/']) front
  | here (front rest : List Char) :
      Tidies (front ++ '/' :: '.' :: '/' :: rest) (front ++ '/' :: rest)

/-- One spelling becomes the other by tidying and its reverse. -/
def Respelled (p q : Path) : Prop := Relation.EqvGen Tidies p.text.toList q.text.toList

/-- The root or the leading `.`, told by the pieces of a spelling. -/
def startOf : List (List Char) → List Char
  | [] :: _ :: _ => ['/']
  | ['.'] :: _ => ['.']
  | _ => []

/-- What a spelling with these pieces means. -/
def meaning (segments : List (List Char)) : List Char × List (List Char) :=
  (startOf segments, segments.filter (!isIdle ·))

theorem components_eq (path : Path) :
    path.components = meaning (Text.pieces '/' path.text.toList) := by
  rw [meaning, ← components_pieces]
  refine Prod.ext ?_ rfl
  show path.anatomy.1 = _
  rw [anatomy]
  split
  · next ht => rw [ht]; rfl
  · next body ht =>
    obtain ⟨first, more, hp⟩ := exists_pieces_cons '/' body
    rw [ht, Text.pieces, if_pos rfl, hp, startOf]
  · next ht => rw [ht]; rfl
  · next body ht => rw [ht]; simp [Text.pieces, startOf]
  · next hempty hroot hdot hhere =>
    obtain ⟨c, rest, ht⟩ := List.exists_cons_of_ne_nil hempty
    have hc : c ≠ '/' := by
      rintro rfl
      exact hroot rest ht
    rw [ht, Text.pieces, if_neg hc]
    rcases rest with _ | ⟨d, after⟩
    · have hc' : c ≠ '.' := by
        rintro rfl
        exact hdot ht
      simp [Text.pieces, startOf, hc']
    · by_cases hd : d = '/'
      · have hc' : c ≠ '.' := by
          rintro rfl
          exact hhere after (hd ▸ ht)
        simp [Text.pieces, hd, startOf, hc']
      · obtain ⟨first, more, hp⟩ := exists_pieces_cons '/' after
        simp [Text.pieces, hd, hp, startOf]

/-- Only an empty first piece asks whether anything comes after it. -/
theorem startOf_congr {first : List Char} {more others : List (List Char)}
    (h : first = [] → (more = [] ↔ others = [])) :
    startOf (first :: more) = startOf (first :: others) := by
  rcases first with _ | ⟨c, rest⟩
  · rcases more with _ | ⟨_, _⟩ <;> rcases others with _ | ⟨_, _⟩ <;> simp_all [startOf]
  · by_cases hdot : c = '.' ∧ rest = []
    · obtain ⟨rfl, rfl⟩ := hdot
      rfl
    · simp [startOf, hdot]

/-- An idle piece that does not come first means nothing, unless it is all that tells a root from
the empty path. -/
theorem meaning_idle {front more : List (List Char)} {segment : List Char}
    (hs : isIdle segment = true) (hf : front ≠ []) (hne : front ++ more ≠ [[]]) :
    meaning (front ++ segment :: more) = meaning (front ++ more) := by
  have hnames : (front ++ segment :: more).filter (!isIdle ·) =
      (front ++ more).filter (!isIdle ·) := by
    simp [List.filter_append, hs]
  obtain ⟨first, between, rfl⟩ := List.exists_cons_of_ne_nil hf
  refine Prod.ext (startOf_congr ?_) hnames
  rintro rfl
  simpa using hne

theorem pieces_ne_nil (text : List Char) : Text.pieces '/' text ≠ [] := by
  obtain ⟨first, more, hp⟩ := exists_pieces_cons '/' text
  simp [hp]

theorem Tidies.meaning_eq {text tidier : List Char} (h : Tidies text tidier) :
    meaning (Text.pieces '/' text) = meaning (Text.pieces '/' tidier) := by
  have hlong : ∀ front rest, Text.pieces '/' front ++ Text.pieces '/' rest ≠ [[]] := by
    intro front rest he
    have hlength := congrArg List.length he
    have hfront := List.length_pos_of_ne_nil (pieces_ne_nil front)
    have hrest := List.length_pos_of_ne_nil (pieces_ne_nil rest)
    simp only [List.length_append, List.length_singleton] at hlength
    omega
  cases h with
  | repeated front rest =>
    have hrest : Text.pieces '/' ('/' :: rest) = [] :: Text.pieces '/' rest := by
      simp [Text.pieces]
    rw [pieces_append_separator, pieces_append_separator, hrest]
    exact meaning_idle rfl (pieces_ne_nil front) (hlong front rest)
  | trailing hf =>
    have hne : Text.pieces '/' tidier ≠ [[]] := by
      intro he
      have htext := intercalate_pieces '/' tidier
      rw [he] at htext
      exact hf htext.symm
    rw [pieces_append_separator]
    have hidle := @meaning_idle (Text.pieces '/' tidier) [] [] rfl (pieces_ne_nil tidier)
      (by rwa [List.append_nil])
    rwa [List.append_nil] at hidle
  | here front rest =>
    have hrest : Text.pieces '/' ('.' :: '/' :: rest) = ['.'] :: Text.pieces '/' rest := by
      simp [Text.pieces]
    rw [pieces_append_separator, pieces_append_separator, hrest]
    exact meaning_idle rfl (pieces_ne_nil front) (hlong front rest)

theorem meaning_eq_of_eqvGen {text other : List Char} (h : Relation.EqvGen Tidies text other) :
    meaning (Text.pieces '/' text) = meaning (Text.pieces '/' other) := by
  induction h with
  | rel _ _ h => exact h.meaning_eq
  | refl _ => rfl
  | symm _ _ _ ih => exact ih.symm
  | trans _ _ _ _ _ ih₁ ih₂ => exact ih₁.trans ih₂

/-- Names with a separator before each. -/
def spell (names : List (List Char)) : List Char := names.flatMap ('/' :: ·)

theorem intercalate_cons_eq (first : List Char) (more : List (List Char)) :
    ['/'].intercalate (first :: more) = first ++ spell more := by
  induction more generalizing first with
  | nil => simp [spell]
  | cons next rest ih =>
    rw [List.intercalate_cons_cons, ih]
    simp [spell]

theorem eqvGen_lastHere (front : List Char) :
    Relation.EqvGen Tidies (front ++ ['/', '.']) (front ++ ['/']) := by
  have htrailing : Tidies (front ++ ['/', '.'] ++ ['/']) (front ++ ['/', '.']) :=
    .trailing (by simp)
  rw [List.append_assoc] at htrailing
  exact .trans _ _ _ (.symm _ _ (.rel _ _ htrailing)) (.rel _ _ (.here front []))

theorem eqvGen_idle {segment : List Char} (hs : isIdle segment = true) {front : List Char}
    {names : List (List Char)} (hne : front ≠ [] ∨ names ≠ []) :
    Relation.EqvGen Tidies (front ++ spell (segment :: names)) (front ++ spell names) := by
  have hsegment : segment = [] ∨ segment = ['.'] := by simpa [isIdle] using hs
  rcases names with _ | ⟨next, rest⟩
  · have htrailing : Tidies (front ++ ['/']) front := .trailing (by simpa using hne)
    rw [show spell [] = [] from rfl, List.append_nil]
    rcases hsegment with rfl | rfl
    · exact .rel _ _ htrailing
    · exact .trans _ _ _ (eqvGen_lastHere front) (.rel _ _ htrailing)
  · rcases hsegment with rfl | rfl
    · exact .rel _ _ (.repeated front (next ++ spell rest))
    · exact .rel _ _ (.here front (next ++ spell rest))

theorem eqvGen_spell (names : List (List Char)) {front : List Char} (hf : front ≠ []) :
    Relation.EqvGen Tidies (front ++ spell names) (front ++ spell (names.filter (!isIdle ·))) := by
  induction names generalizing front with
  | nil => exact .refl _
  | cons name names ih =>
    by_cases hs : isIdle name = true
    · rw [List.filter_cons_of_neg (by simp [hs])]
      exact .trans _ _ _ (eqvGen_idle hs (.inl hf)) (ih hf)
    · have hcons : ∀ rest, front ++ spell (name :: rest) = front ++ '/' :: name ++ spell rest := by
        simp [spell]
      rw [List.filter_cons_of_pos (by simp [hs]), hcons, hcons]
      exact ih (by simp)

/-- The same for what comes after a root, of which one separator always stays. -/
theorem eqvGen_root {names : List (List Char)} (hne : names ≠ []) :
    Relation.EqvGen Tidies (spell names)
      ('/' :: ['/'].intercalate (names.filter (!isIdle ·))) := by
  induction names with
  | nil => exact absurd rfl hne
  | cons name names ih =>
    by_cases hs : isIdle name = true
    · rw [List.filter_cons_of_neg (by simp [hs])]
      by_cases hlast : names = []
      · subst hlast
        rcases (by simpa [isIdle] using hs : name = [] ∨ name = ['.']) with rfl | rfl
        · exact .refl _
        · exact eqvGen_lastHere []
      · exact .trans _ _ _ (@eqvGen_idle name hs [] names (.inr hlast)) (ih hlast)
    · rw [List.filter_cons_of_pos (by simp [hs]), intercalate_cons_eq]
      exact @eqvGen_spell names ('/' :: name) (by simp)

/-- The tidiest spelling of a meaning. -/
def tidy : List Char × List (List Char) → List Char
  | (['.'], names) => '.' :: spell names
  | (start, names) => start ++ ['/'].intercalate names

theorem eqvGen_tidy (path : Path) :
    Relation.EqvGen Tidies path.text.toList (tidy path.components) := by
  obtain ⟨first, more, hp⟩ := exists_pieces_cons '/' path.text.toList
  have htext : path.text.toList = first ++ spell more := by
    rw [← intercalate_cons_eq, ← hp, intercalate_pieces]
  rw [components_eq, hp, htext]
  by_cases hempty : first = []
  · subst hempty
    rcases more with _ | ⟨next, rest⟩
    · exact .refl _
    · exact eqvGen_root (by simp)
  · refine .trans _ _ _ (eqvGen_spell more hempty) ?_
    by_cases hdot : first = ['.']
    · subst hdot
      exact .refl _
    · have hidle : isIdle first = false := by simp [isIdle, hempty, hdot]
      have hstart : startOf (first :: more) = [] := by
        rw [startOf.eq_def]
        split <;> simp_all
      have htidy : tidy (meaning (first :: more)) =
          first ++ spell (more.filter (!isIdle ·)) := by
        rw [meaning, hstart, List.filter_cons_of_pos (by simp [hidle]), ← intercalate_cons_eq]
        rfl
      rw [htidy]
      exact .refl _

theorem same_iff_respelled {p q : Path} : p.same q = true ↔ p.Respelled q := by
  rw [same_iff]
  constructor
  · intro h
    exact .trans _ _ _ (eqvGen_tidy p) (.symm _ _ (h ▸ eqvGen_tidy q))
  · intro h
    rw [components_eq, components_eq]
    exact meaning_eq_of_eqvGen h

/-- Where a path leads from a place; one with a root leads there from everywhere. -/
def descend (here next : List Char × List (List Char)) : List Char × List (List Char) :=
  if next.1 = ['/'] ∨ here = ([], []) then next else (here.1, here.2 ++ next.2)

section
variable {here next : List Char × List (List Char)}

theorem descend_empty (next : List Char × List (List Char)) : descend ([], []) next = next := by
  simp [descend]

theorem descend_root (h : next.1 = ['/']) : descend here next = next := if_pos (.inl h)

theorem descend_relative (hnext : next.1 ≠ ['/']) (hhere : here ≠ ([], [])) :
    descend here next = (here.1, here.2 ++ next.2) := if_neg (by simp [hnext, hhere])

end

theorem descend_nowhere (here : List Char × List (List Char)) : descend here ([], []) = here := by
  by_cases hhere : here = ([], [])
  · rw [hhere, descend_empty]
  · rw [descend_relative (by simp) hhere, List.append_nil]

theorem descend_assoc (first second third : List Char × List (List Char)) :
    descend (descend first second) third = descend first (descend second third) := by
  by_cases hthird : third.1 = ['/']
  · rw [descend_root hthird, descend_root hthird, descend_root hthird]
  by_cases hfirst : first = ([], [])
  · rw [hfirst, descend_empty, descend_empty]
  by_cases hsecond : second = ([], [])
  · rw [hsecond, descend_empty, descend_nowhere]
  by_cases hroot : second.1 = ['/']
  · have hlater : (descend second third).1 = ['/'] := by
      rw [descend_relative hthird hsecond]
      exact hroot
    rw [descend_root hroot, descend_root hlater]
  · have hne : descend first second ≠ ([], []) := by
      rw [descend_relative hroot hfirst]
      intro he
      obtain ⟨hstart, hnames⟩ := Prod.mk.inj he
      exact hfirst (Prod.ext hstart (List.append_eq_nil_iff.mp hnames).1)
    have hlater : (descend second third).1 ≠ ['/'] := by
      rwa [descend_relative hthird hsecond]
    rw [descend_relative hthird hne, descend_relative hlater hfirst,
      descend_relative hroot hfirst, descend_relative hthird hsecond, List.append_assoc]

/-- Going down step by step from a place is going where the steps lead together. -/
theorem foldl_descend {α : Type} (f : α → List Char × List (List Char)) (steps : List α)
    (start : List Char × List (List Char)) :
    steps.foldl (fun here step => descend here (f step)) start =
      descend start (steps.foldl (fun here step => descend here (f step)) ([], [])) := by
  induction steps using List.reverseRecOn with
  | nil => exact (descend_nowhere start).symm
  | append_singleton steps step ih =>
    rw [List.foldl_append, List.foldl_append, ih]
    exact descend_assoc _ _ _

theorem isAbsolute_iff {path : Path} : path.isAbsolute = true ↔ path.components.1 = ['/'] := by
  rw [components, anatomy, isAbsolute]
  split
  · next ht => simp [ht]
  · next ht => simp [ht]
  · next ht => simp [ht]
  · next ht => simp [ht]
  · next hempty hroot _ _ =>
    obtain ⟨c, rest, ht⟩ := List.exists_cons_of_ne_nil hempty
    have hc : c ≠ '/' := by
      rintro rfl
      exact hroot rest ht
    simp [ht, hc]

theorem components_ne {path : Path} (h : path.text ≠ "") : path.components ≠ ([], []) := by
  obtain ⟨first, more, hp⟩ := exists_pieces_cons '/' path.text.toList
  rw [components_eq, hp]
  intro hempty
  obtain ⟨hstart, hnames⟩ := Prod.mk.inj hempty
  have hidle : isIdle first = true := by
    simpa using (List.filter_eq_nil_iff.mp hnames) first (by simp)
  rcases (by simpa [isIdle] using hidle : first = [] ∨ first = ['.']) with rfl | rfl
  · rcases more with _ | ⟨next, rest⟩
    · have htext := intercalate_pieces '/' path.text.toList
      rw [hp] at htext
      exact h (String.toList_inj.mp htext.symm)
    · simp [startOf] at hstart
  · simp [startOf] at hstart

theorem components_separator (front part : String) :
    (⟨front ++ "/" ++ part⟩ : Path).components =
      ((⟨front ++ "/"⟩ : Path).components.1,
        (⟨front ++ "/"⟩ : Path).components.2 ++ (⟨part⟩ : Path).components.2) := by
  obtain ⟨first, between, hfront⟩ := exists_pieces_cons '/' front.toList
  obtain ⟨next, rest, hpart⟩ := exists_pieces_cons '/' part.toList
  have hlong : Text.pieces '/' (front ++ "/" ++ part).toList =
      first :: (between ++ Text.pieces '/' part.toList) := by
    have htext : (front ++ "/" ++ part).toList = front.toList ++ '/' :: part.toList := by simp
    rw [htext, pieces_append_separator, hfront, List.cons_append]
  have hshort : Text.pieces '/' (front ++ "/").toList = first :: (between ++ [[]]) := by
    have htext : (front ++ "/").toList = front.toList ++ '/' :: [] := by simp
    rw [htext, pieces_append_separator, hfront, List.cons_append]
    rfl
  simp only [components_eq, hlong, hshort, meaning]
  refine Prod.ext (startOf_congr fun _ => by simp [hpart]) ?_
  simp only [← List.cons_append, List.filter_append]
  rw [List.append_assoc]
  rfl

theorem components_join (base part : Path) :
    (base.join part).components = descend base.components part.components := by
  by_cases habsolute : part.isAbsolute = true
  · rw [join, if_pos habsolute, descend_root (isAbsolute_iff.mp habsolute)]
  rw [Bool.not_eq_true] at habsolute
  have hpart : part.components.1 ≠ ['/'] := fun he => by
    rw [isAbsolute_iff.mpr he] at habsolute
    exact absurd habsolute (by decide)
  rw [join_relative habsolute]
  rcases base.stem_cases with ⟨ht, hs⟩ | ⟨front, ht, hs⟩ | ⟨ht, hs⟩
  · have hbase : base.components = ([], []) := by
      rw [components_eq, ht]
      rfl
    rw [hs, hbase, descend_empty, String.empty_append]
  · have hbase : base.components = (⟨front ++ "/"⟩ : Path).components := by rw [← ht]
    have hne : base.components ≠ ([], []) := components_ne (by simp [ht])
    rw [descend_relative hpart hne, hs, components_separator, hbase]
  · have hbase : base.components = (⟨base.text ++ "/"⟩ : Path).components := by
      have htrailing : Tidies (base.text ++ "/").toList base.text.toList := by
        rw [String.toList_append]
        exact .trailing (by simpa using ht)
      rw [components_eq, components_eq, htrailing.meaning_eq]
    have hne := components_ne ht
    rw [descend_relative hpart hne, hs, components_separator, ← hbase]

end Path

/-- Where a unit is placed: the components of the output directory, of each segment of the package
and of the file name, one after another. -/
theorem Target.components_pathOf (target : Target) (unit : SourceUnit) :
    (target.pathOf unit).components =
      ((Text.splitAt '.' unit.package).filter (· ≠ "") ++ [unit.fileName]).foldl
        (fun here name => Path.descend here (⟨name⟩ : Path).components)
        target.outputDirectory.components := by
  have hjoin : ∀ (names : List String) (path : Path),
      (names.foldl (fun (path : Path) name => path.join ⟨name⟩) path).components =
        names.foldl (fun here name => Path.descend here (⟨name⟩ : Path).components)
          path.components := by
    intro names
    induction names with
    | nil => exact fun _ => rfl
    | cons name names ih =>
      intro path
      rw [List.foldl_cons, ih, Path.components_join, List.foldl_cons]
  rw [Target.pathOf, SourceUnit.relativePath, Path.components_join, Path.components_join, hjoin,
    List.foldl_append, Path.foldl_descend _ _ target.outputDirectory.components, List.foldl_cons,
    List.foldl_nil, Path.descend_assoc]
  rfl

end StyleFamily
