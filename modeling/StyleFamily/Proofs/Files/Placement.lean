import StyleFamily.Proofs.Files.DirectorySink
import StyleFamily.Proofs.Files.Spelling

/-!
# Placing a file below a directory

A path leads to a directory, and what stands below that directory stands below directories. A file
is placed there at names that no file is on the way to: the directories on the way come to be, the
file holds its text, its draft is gone, and everything else stays.
-/
namespace StyleFamily

/-- Nothing in the spelling of a path keeps it from being followed. -/
structure Path.IsFollowable (path : Path) : Prop where
  usable : Tree.isUsablePath path = true
  names : ∀ name ∈ Tree.namesOf path, Tree.isUsableName name = true

theorem isUsablePath_of_append {text more : String}
    (h : Tree.isUsablePath ⟨text ++ more⟩ = true) : Tree.isUsablePath ⟨text⟩ = true := by
  simp only [Tree.isUsablePath, String.utf8ByteSize_append, String.toList_append, Bool.and_eq_true,
    decide_eq_true_eq, Bool.not_eq_true', List.contains_eq_mem, decide_eq_false_iff_not,
    List.mem_append, not_or] at h ⊢
  exact ⟨by omega, h.2.1⟩

namespace Path.IsFollowable
variable {path : Path} {name : String}

theorem of_join (hn : IsPlain name) (h : (path.join ⟨name⟩).IsFollowable) :
    path.IsFollowable ∧ Tree.isUsableName name = true := by
  obtain ⟨husable, hnames⟩ := h
  obtain ⟨more, hmore⟩ := Path.text_join hn path
  have hpath : path.join ⟨name⟩ = ⟨path.text ++ (more ++ name)⟩ := congrArg Path.mk hmore
  rw [Path.namesOf_join hn] at hnames
  refine ⟨⟨isUsablePath_of_append (hpath ▸ husable), fun other ho => ?_⟩, ?_⟩
  · exact hnames other (List.mem_append_left _ ho)
  · exact hnames name (by simp)

theorem of_draft (hn : IsPlain name) (h : (path.join ⟨name⟩).draft.IsFollowable) :
    (path.join ⟨name⟩).IsFollowable := by
  have husable : Tree.isUsablePath (path.join ⟨name⟩) = true := isUsablePath_of_append h.usable
  rw [Path.draft_join hn] at h
  obtain ⟨habove, hdraft⟩ := of_join hn.draft h
  refine ⟨husable, fun other ho => ?_⟩
  rw [Path.namesOf_join hn, List.mem_append, List.mem_singleton] at ho
  rcases ho with ho | rfl
  · exact habove.names other ho
  · simp only [Tree.isUsableName, String.utf8ByteSize_append, decide_eq_true_eq] at hdraft ⊢
    omega

end Path.IsFollowable

namespace Tree

/-- Where the names of a path lead, be it ever so long; the empty path stays. -/
def reach (tree : Tree) (path : Path) : Except Obstacle Place :=
  tree.walk (if path.isAbsolute then [] else tree.workingDirectory) (namesOf path)

theorem reach_of_keepsDirectories {tree next : Tree} (h : tree.KeepsDirectories next) {path : Path}
    {place : Place} (hr : tree.reach path = .ok place) : next.reach path = .ok place := by
  rw [reach, h.1]
  exact walk_of_keepsDirectories h hr

section
variable {tree : Tree} {path : Path} {name : String} {place : Place} (hn : IsPlain name)
include hn

theorem reach_join : tree.reach (path.join ⟨name⟩) =
    (tree.reach path).bind fun place => tree.walk place [name] := by
  rw [reach, Path.isAbsolute_join hn, Path.namesOf_join hn, walk_append]
  rfl

theorem walk_name (hu : isUsableName name = true) :
    tree.walk place [name] = match tree.entry? place with
      | none => .error .missing
      | some (.file _) => .error .refused
      | some .directory => .ok (place ++ [name]) := by
  rw [walk]
  rcases tree.entry? place with _ | _ | _ <;> simp [hn.dot, hn.up, hu, walk]

variable (hf : (path.join ⟨name⟩).IsFollowable)
include hf

theorem locate_join : tree.locate (path.join ⟨name⟩) = tree.reach (path.join ⟨name⟩) := by
  simp [locate, reach, Path.text_join_ne hn path, hf.usable]

theorem reach_join_of_directory (hr : tree.reach path = .ok place)
    (hd : tree.entry? place = some .directory) :
    tree.reach (path.join ⟨name⟩) = .ok (place ++ [name]) := by
  rw [reach_join hn, hr, Except.bind, walk_name hn (hf.of_join hn).2, hd]

theorem fileSlot?_join (hr : tree.reach path = .ok place)
    (hd : tree.entry? place = some .directory)
    (hfree : tree.entry? (place ++ [name]) ≠ some .directory) :
    tree.fileSlot? (path.join ⟨name⟩) = some (place ++ [name]) := by
  simp [fileSlot?, locate_join hn hf, reach_join_of_directory hn hf hr hd,
    Path.endsAsDirectory_join hn, hd, hfree]

theorem createDirectory_join (hr : tree.reach path = .ok place)
    (hd : tree.entry? place = some .directory) :
    tree.createDirectory (path.join ⟨name⟩) =
      if tree.entry? (place ++ [name]) = none then .ok (tree.put (place ++ [name]) .directory)
      else .error .refused := by
  rw [createDirectory, locate_join hn hf, reach_join_of_directory hn hf hr hd]
  rcases he : tree.entry? (place ++ [name]) with _ | entry <;> simp [bind, Except.bind, he, hd]

theorem isDirectory_join (hr : tree.reach path = .ok place)
    (hd : tree.entry? place = some .directory) :
    tree.isDirectory (path.join ⟨name⟩) =
      (tree.entry? (place ++ [name]) == some .directory) := by
  rw [isDirectory, at?, locate_join hn hf, reach_join_of_directory hn hf hr hd]
  rcases he : tree.entry? (place ++ [name]) with _ | _ | text <;>
    simp [he, Path.endsAsDirectory_join hn]

theorem createDirectory_of_missing (hr : tree.reach (path.join ⟨name⟩) = .error .missing) :
    tree.createDirectory (path.join ⟨name⟩) = .error .missing := by
  rw [createDirectory, locate_join hn hf, hr]
  rfl

end

/-- A path leads to a directory, and everything below it stands in a directory. -/
structure Roots (tree : Tree) (path : Path) (base : Place) : Prop where
  reach : tree.reach path = .ok base
  directory : tree.entry? base = some .directory
  closed : ∀ names name, tree.entry? (base ++ (names ++ [name])) ≠ none →
    tree.entry? (base ++ names) = some .directory

/-- No file stands at some names below a place or on the way there. -/
def IsClear (tree : Tree) (base : Place) (names : List String) : Prop :=
  ∀ front, front <+: names → tree.file? (base ++ front) = none

theorem IsClear.of_append {tree : Tree} {base : Place} {front back : List String}
    (h : tree.IsClear base (front ++ back)) : tree.IsClear base front :=
  fun other ho => h other (ho.trans (List.prefix_append _ _))

/-- Directories stand at some names below a place and on the way there; nothing else differs. -/
structure Paved (base : Place) (names : List String) (tree next : Tree) : Prop where
  workingDirectory : next.workingDirectory = tree.workingDirectory
  on : ∀ {front}, front <+: names → next.entry? (base ++ front) = some .directory
  off : ∀ {place}, (∀ front, front <+: names → place ≠ base ++ front) →
    next.entry? place = tree.entry? place

theorem Paved.keepsDirectories {base : Place} {names : List String} {tree next : Tree}
    (hp : Paved base names tree next) : tree.KeepsDirectories next := by
  refine ⟨hp.workingDirectory, fun place hd => ?_⟩
  by_cases hon : ∃ front, front <+: names ∧ place = base ++ front
  · obtain ⟨front, hfront, rfl⟩ := hon
    exact hp.on hfront
  · rw [hp.off fun front hfront he => hon ⟨front, hfront, he⟩, hd]

theorem snoc_ne_front (base : Place) {front other : List String} (name : String)
    (h : other <+: front) : base ++ (front ++ [name]) ≠ base ++ other := by
  intro he
  obtain rfl := List.append_cancel_left he
  have hlength := h.length_le
  simp only [List.length_append, List.length_singleton] at hlength
  omega

theorem Paved.put {base : Place} {front : List String} {tree next : Tree}
    (hp : Paved base front tree next) (name : String) :
    Paved base (front ++ [name]) tree (next.put (base ++ (front ++ [name])) .directory) where
  workingDirectory := hp.workingDirectory
  on := by
    intro other ho
    rcases List.prefix_concat_iff.mp ho with rfl | ho
    · exact entry?_put_self _ (by simp)
    · rw [entry?_put_of_ne _ (snoc_ne_front base name ho).symm, hp.on ho]
  off := by
    intro place hplace
    rw [entry?_put_of_ne _ (hplace _ List.prefix_rfl)]
    exact hp.off fun other ho => hplace other (ho.trans (List.prefix_append _ _))

namespace Roots
variable {tree : Tree} {path : Path} {base : Place} {names : List String} {name : String}
  (h : tree.Roots path base)
include h

theorem directory_of_append {front back : List String}
    (hd : tree.entry? (base ++ (front ++ back)) = some .directory) :
    tree.entry? (base ++ front) = some .directory := by
  induction back using List.reverseRecOn with
  | nil => simpa using hd
  | append_singleton back last ih =>
    rw [← List.append_assoc] at hd
    exact ih (h.closed _ last (by simpa using fun he => by simp [he] at hd))

theorem paved (hd : tree.entry? (base ++ names) = some .directory) :
    Paved base names tree tree where
  workingDirectory := rfl
  on := by
    rintro front ⟨back, rfl⟩
    exact h.directory_of_append hd
  off := fun _ => rfl

theorem of_keepsDirectories {next : Tree} (hk : tree.KeepsDirectories next)
    (hclosed : ∀ names name, next.entry? (base ++ (names ++ [name])) ≠ none →
      next.entry? (base ++ names) = some .directory) : next.Roots path base :=
  ⟨reach_of_keepsDirectories hk h.reach, hk.2 _ h.directory, hclosed⟩

theorem of_paved {next : Tree} (hp : Paved base names tree next) : next.Roots path base := by
  have hk := hp.keepsDirectories
  refine h.of_keepsDirectories hk fun below last hsome => ?_
  by_cases hon : below ++ [last] <+: names
  · exact hp.on ((List.prefix_append _ _).trans hon)
  · have hoff : ∀ front, front <+: names → base ++ (below ++ [last]) ≠ base ++ front := by
      intro front hfront he
      exact hon (List.append_cancel_left he ▸ hfront)
    exact hk.2 _ (h.closed below last (hp.off hoff ▸ hsome))

section
variable (hn : ∀ name ∈ names, IsPlain name) (hf : (path.below names).IsFollowable)
include hn hf

theorem reach_below (hd : tree.entry? (base ++ names) = some .directory) :
    tree.reach (path.below names) = .ok (base ++ names) := by
  induction names using List.reverseRecOn with
  | nil => simpa using h.reach
  | append_singleton front last ih =>
    have hlast : IsPlain last := hn last (by simp)
    rw [Path.below_snoc] at hf ⊢
    have hfront : tree.entry? (base ++ front) = some .directory :=
      h.closed front last (by simp [hd])
    have ih := ih (fun name hm => hn name (List.mem_append_left _ hm)) (hf.of_join hlast).1 hfront
    rw [reach_join_of_directory hlast hf ih hfront, List.append_assoc]

/-- Where no file is on the way, names lead down, or they stop for want of a directory. -/
theorem reach_below_or_missing (hclear : tree.IsClear base names) :
    tree.reach (path.below names) = .ok (base ++ names) ∨
      tree.reach (path.below names) = .error .missing := by
  induction names using List.reverseRecOn with
  | nil => exact .inl (by simpa using h.reach)
  | append_singleton front last ih =>
    have hlast : IsPlain last := hn last (by simp)
    rw [Path.below_snoc] at hf ⊢
    have ih := ih (fun name hm => hn name (List.mem_append_left _ hm)) (hf.of_join hlast).1
      hclear.of_append
    rcases ih with hr | hr
    · rw [reach_join hlast, hr, Except.bind, walk_name hlast (hf.of_join hlast).2,
        List.append_assoc]
      rcases entry?_of_file?_none (hclear front (List.prefix_append _ _)) with he | he
      · exact .inr (by rw [he])
      · exact .inl (by rw [he])
    · exact .inr (by rw [reach_join hlast, hr, Except.bind])

end

/-- Names do not lead on from where no directory stands. -/
theorem reach_join_missing (hn : ∀ name ∈ names, IsPlain name) (hname : IsPlain name)
    (hf : ((path.below names).join ⟨name⟩).IsFollowable)
    (hclear : tree.IsClear base names)
    (hd : tree.entry? (base ++ names) ≠ some .directory) :
    tree.reach ((path.below names).join ⟨name⟩) = .error .missing := by
  obtain ⟨hfollow, husable⟩ := hf.of_join hname
  rw [reach_join hname]
  rcases h.reach_below_or_missing hn hfollow hclear with hr | hr
  · have hnone : tree.entry? (base ++ names) = none :=
      (entry?_of_file?_none (hclear _ List.prefix_rfl)).resolve_right hd
    rw [hr, Except.bind, walk_name hname husable, hnone]
  · rw [hr, Except.bind]

/-- What a path below shows is what stands at its place. -/
theorem at?_below (hn : ∀ name ∈ names, IsPlain name) (hname : IsPlain name)
    (hf : ((path.below names).join ⟨name⟩).IsFollowable)
    (hclear : tree.IsClear base names) :
    tree.at? ((path.below names).join ⟨name⟩) = tree.entry? (base ++ (names ++ [name])) := by
  have hfollow := (hf.of_join hname).1
  rw [at?, locate_join hname hf]
  by_cases hd : tree.entry? (base ++ names) = some .directory
  · rw [reach_join_of_directory hname hf (h.reach_below hn hfollow hd) hd, List.append_assoc]
    rcases he : tree.entry? (base ++ (names ++ [name])) with _ | _ | text <;>
      simp [he, Path.endsAsDirectory_join hname]
  · have hnone : tree.entry? (base ++ (names ++ [name])) = none := by
      by_contra hsome
      exact hd (h.closed names name hsome)
    rw [h.reach_join_missing hn hname hf hclear hd, hnone]

theorem read_below (hn : ∀ name ∈ names, IsPlain name) (hname : IsPlain name)
    (hf : ((path.below names).join ⟨name⟩).IsFollowable)
    (hclear : tree.IsClear base names) :
    tree.read ((path.below names).join ⟨name⟩) = tree.file? (base ++ (names ++ [name])) := by
  have hat := h.at?_below hn hname hf hclear
  rcases he : tree.entry? (base ++ (names ++ [name])) with _ | _ | text <;>
    simp [read, file?, hat, he]

/-- Below a directory, one more is created or stands there already. -/
theorem createDirectoriesWithin_join (fuel : Nat) (hn : ∀ name ∈ names, IsPlain name)
    (hname : IsPlain name) (hf : ((path.below names).join ⟨name⟩).IsFollowable)
    (hd : tree.entry? (base ++ names) = some .directory)
    (hfree : tree.file? (base ++ (names ++ [name])) = none) :
    ∃ next, createDirectoriesWithin (fuel + 1) tree ((path.below names).join ⟨name⟩) =
      (true, next) ∧ Paved base (names ++ [name]) tree next := by
  have hr := h.reach_below hn (hf.of_join hname).1 hd
  rw [createDirectoriesWithin, if_neg (Path.text_join_ne hname _),
    createDirectory_join hname hf hr hd, isDirectory_join hname hf hr hd, List.append_assoc]
  rcases entry?_of_file?_none hfree with hnone | hdir
  · rw [if_pos hnone]
    exact ⟨_, rfl, (h.paved hd).put name⟩
  · rw [if_neg (by simp [hdir]), hdir]
    exact ⟨tree, rfl, h.paved hdir⟩

/-- A directory that is missing is created, and before it those above it. -/
theorem createDirectoriesWithin_below {fuel : Nat} (hn : ∀ name ∈ names, IsPlain name)
    (hf : (path.below names).IsFollowable) (hclear : tree.IsClear base names)
    (hne : names ≠ []) (hfuel : names.length ≤ fuel) :
    ∃ next, createDirectoriesWithin fuel tree (path.below names) = (true, next) ∧
      Paved base names tree next := by
  induction names using List.reverseRecOn generalizing fuel with
  | nil => exact absurd rfl hne
  | append_singleton front last ih =>
    have hlast : IsPlain last := hn last (by simp)
    have hfront : ∀ name ∈ front, IsPlain name := fun name hm => hn name (List.mem_append_left _ hm)
    obtain ⟨fuel, rfl⟩ : ∃ more, fuel = more + 1 := by
      refine ⟨fuel - 1, ?_⟩
      simp only [List.length_append, List.length_singleton] at hfuel
      omega
    rw [Path.below_snoc] at hf ⊢
    by_cases hd : tree.entry? (base ++ front) = some .directory
    · exact h.createDirectoriesWithin_join fuel hfront hlast hf hd (hclear _ List.prefix_rfl)
    · have hcreate := createDirectory_of_missing hlast hf
        (h.reach_join_missing hfront hlast hf hclear.of_append hd)
      have hneFront : front ≠ [] := by
        rintro rfl
        exact hd (by simpa using h.directory)
      have hparent := Path.parent?_below hfront hlast hneFront path
      have hff := (hf.of_join hlast).1
      obtain ⟨next, hnext, hpaved⟩ := ih hfront hff hclear.of_append hneFront
        (show front.length ≤ fuel by simpa using hfuel)
      have hon : next.entry? (base ++ front) = some .directory := hpaved.on List.prefix_rfl
      have hreach := (h.of_paved hpaved).reach_below hfront hff hon
      have hfreeNext : next.entry? (base ++ front ++ [last]) = none := by
        rw [List.append_assoc, hpaved.off fun other ho => snoc_ne_front base last ho]
        by_contra hsome
        exact hd (h.closed front last hsome)
      rw [createDirectoriesWithin, if_neg (Path.text_join_ne hlast _), hcreate, hparent]
      simp only [hnext]
      rw [createDirectory_join hlast hf hreach hon, if_pos hfreeNext, List.append_assoc]
      exact ⟨_, rfl, hpaved.put last⟩

end Roots

section
variable {tree : Tree} {above : Path} {place : Place} {name : String} (hn : IsPlain name)
  (hf : (above.join ⟨name⟩).draft.IsFollowable) (hr : tree.reach above = .ok place)
  (hd : tree.entry? place = some .directory)
include hn hf hr hd

/-- A draft is written in a directory and moved onto its file. -/
theorem write_rename (hfile : tree.entry? (place ++ [name]) ≠ some .directory)
    (hdraft : tree.entry? (place ++ [name ++ ".tmp"]) ≠ some .directory) (text : String) :
    ∃ drafted moved, tree.write (above.join ⟨name⟩).draft text = (true, drafted) ∧
      drafted.rename (above.join ⟨name⟩).draft (above.join ⟨name⟩) = (true, moved) ∧
      tree.KeepsDirectories moved ∧
      moved.entry? (place ++ [name]) = some (.file text) ∧
      moved.entry? (place ++ [name ++ ".tmp"]) = none ∧
      ∀ other, other ≠ place ++ [name] → other ≠ place ++ [name ++ ".tmp"] →
        moved.entry? other = tree.entry? other := by
  have hpath := hf.of_draft hn
  rw [Path.draft_join hn] at hf ⊢
  have hslot := fileSlot?_join hn.draft hf hr hd hdraft
  obtain ⟨drafted, hdrafted⟩ :
      ∃ drafted, tree.put (place ++ [name ++ ".tmp"]) (.file text) = drafted := ⟨_, rfl⟩
  have hwrite : tree.write (above.join ⟨name ++ ".tmp"⟩) text = (true, drafted) := by
    rw [write, hslot, ← hdrafted]
  have hne : place ++ [name] ≠ place ++ [name ++ ".tmp"] := fun he =>
    ne_draft_segment name (by simpa using he)
  have hkeeps : tree.KeepsDirectories drafted := hdrafted ▸ keepsDirectories_put (.file text) hdraft
  have hreach := reach_of_keepsDirectories hkeeps hr
  have hdraftSlot := fileSlot?_join hn.draft hf hreach (hkeeps.2 _ hd) (by
    rw [← hdrafted, entry?_put_self _ (ne_root hdraft)]
    simp)
  have hfileSlot := fileSlot?_join hn hpath hreach (hkeeps.2 _ hd) (by
    rwa [← hdrafted, entry?_put_of_ne _ hne])
  obtain ⟨moved, hmoved⟩ : ∃ moved,
      (drafted.erase (place ++ [name ++ ".tmp"])).put (place ++ [name]) (.file text) = moved :=
    ⟨_, rfl⟩
  have hrename : drafted.rename (above.join ⟨name ++ ".tmp"⟩) (above.join ⟨name⟩) =
      (true, moved) := by
    rw [rename, read_write hwrite, hdraftSlot, hfileSlot, ← hmoved]
  have hon : moved.entry? (place ++ [name]) = some (.file text) := by
    rw [← hmoved, entry?_put_self _ (ne_root hfile)]
  have hgone : moved.entry? (place ++ [name ++ ".tmp"]) = none := by
    rw [← hmoved, entry?_put_of_ne _ hne.symm, entry?_erase_self (ne_root hdraft)]
  have hoff : ∀ other, other ≠ place ++ [name] → other ≠ place ++ [name ++ ".tmp"] →
      moved.entry? other = tree.entry? other := by
    intro other ho hoDraft
    rw [← hmoved, entry?_put_of_ne _ ho, entry?_erase_of_ne hoDraft, ← hdrafted,
      entry?_put_of_ne _ hoDraft]
  have hdirectories : tree.KeepsDirectories moved := by
    refine ⟨by rw [← hmoved, ← hdrafted]; rfl, fun other ho => ?_⟩
    rw [hoff other (fun he => hfile (he ▸ ho)) (fun he => hdraft (he ▸ ho)), ho]
  exact ⟨drafted, moved, hwrite, hrename, hdirectories, hon, hgone, hoff⟩

end

theorem replace_run {tree paved drafted moved : Tree} {path above : Path} {text : String}
    (hparent : path.parent? = some above) (hready : tree.createDirectories above = (true, paved))
    (hwrite : paved.write path.draft text = (true, drafted))
    (hrename : drafted.rename path.draft path = (true, moved)) :
    (access.replace path text).run tree = (true, moved) := by
  have hprepare : (access.prepare path).run tree = (true, paved) := by
    rw [FileAccess.prepare, hparent]
    exact hready
  have hdrafted : (access.write path.draft text).run paved = (true, drafted) := hwrite
  have hmoved : (access.rename path.draft path).run drafted = (true, moved) := hrename
  rw [replace_eq, run_bind_of_run hprepare]
  simp only [Bool.not_true, Bool.false_eq_true, ↓reduceIte]
  rw [run_bind_of_run hdrafted]
  simp only [↓reduceIte]
  rw [run_bind_of_run hmoved]
  rfl

/-- What may differ once a file was placed below a directory: the file, its draft, and directories
on the way. -/
structure Placed (base : Place) (names : List String) (name text : String) (tree next : Tree) :
    Prop where
  keeps : tree.KeepsDirectories next
  file : next.entry? (base ++ (names ++ [name])) = some (.file text)
  draft : next.entry? (base ++ (names ++ [name ++ ".tmp"])) = none
  on : ∀ {front}, front <+: names → next.entry? (base ++ front) = some .directory
  off : ∀ {place}, place ≠ base ++ (names ++ [name]) →
    place ≠ base ++ (names ++ [name ++ ".tmp"]) →
    (∀ front, front <+: names → place ≠ base ++ front) → next.entry? place = tree.entry? place

theorem Roots.replace_below {tree : Tree} {path : Path} {base : Place} {names : List String}
    {name : String} (h : tree.Roots path base) (hnames : ∀ name ∈ names, IsPlain name)
    (hname : IsPlain name) (hne : names ≠ [])
    (hf : ((path.below names).join ⟨name⟩).draft.IsFollowable)
    (hclear : tree.IsClear base names)
    (hfile : tree.entry? (base ++ (names ++ [name])) ≠ some .directory)
    (hdraft : tree.entry? (base ++ (names ++ [name ++ ".tmp"])) ≠ some .directory)
    (text : String) :
    ∃ next, (access.replace ((path.below names).join ⟨name⟩) text).run tree = (true, next) ∧
      Placed base names name text tree next := by
  have hfollow := ((hf.of_draft hname).of_join hname).1
  obtain ⟨paved, hready, hpaved⟩ := h.createDirectoriesWithin_below hnames hfollow hclear hne
    (Nat.le_succ_of_le (Path.length_below hnames path))
  have hdir : paved.entry? (base ++ names) = some .directory := hpaved.on List.prefix_rfl
  have hreach := (h.of_paved hpaved).reach_below hnames hfollow hdir
  have hkept : ∀ last, paved.entry? (base ++ names ++ [last]) =
      tree.entry? (base ++ (names ++ [last])) := by
    intro last
    rw [List.append_assoc]
    exact hpaved.off fun front hfront => snoc_ne_front base last hfront
  obtain ⟨drafted, moved, hwrite, hrename, hkeeps, hon, hgone, hoff⟩ :=
    write_rename hname hf hreach hdir (by rwa [hkept]) (by rwa [hkept]) text
  rw [List.append_assoc] at hon hgone hoff
  rw [List.append_assoc] at hoff
  refine ⟨moved, replace_run (Path.parent?_below hnames hname hne path) hready hwrite hrename, ?_⟩
  refine ⟨hpaved.keepsDirectories.trans hkeeps, hon, hgone, fun {front} hfront => ?_,
    fun {place} hplace hplaceDraft hway => ?_⟩
  · exact hkeeps.2 _ (hpaved.on hfront)
  · rw [hoff _ hplace hplaceDraft]
    exact hpaved.off hway

theorem Placed.entry?_below {base : Place} {names : List String} {name text : String}
    {tree next : Tree} (hp : Placed base names name text tree next) (other : List String) :
    other = names ++ [name] ∨ other = names ++ [name ++ ".tmp"] ∨ other <+: names ∨
      next.entry? (base ++ other) = tree.entry? (base ++ other) := by
  by_cases hfile : other = names ++ [name]
  · exact .inl hfile
  by_cases hdraft : other = names ++ [name ++ ".tmp"]
  · exact .inr (.inl hdraft)
  by_cases hway : other <+: names
  · exact .inr (.inr (.inl hway))
  · refine .inr (.inr (.inr (hp.off (fun he => ?_) (fun he => ?_) fun front hfront he => ?_)))
    · exact hfile (List.append_cancel_left he)
    · exact hdraft (List.append_cancel_left he)
    · exact hway (List.append_cancel_left he ▸ hfront)

/-- A file leads no path astray that leads to the directory it was placed below. -/
theorem Roots.of_placed {tree next : Tree} {path : Path} {base : Place} {names : List String}
    {name text : String} (h : tree.Roots path base) (hp : Placed base names name text tree next) :
    next.Roots path base := by
  refine h.of_keepsDirectories hp.keeps fun below last hsome => ?_
  rcases hp.entry?_below (below ++ [last]) with he | he | hway | hsame
  · rw [List.append_inj_left' he rfl]
    exact hp.on List.prefix_rfl
  · rw [he, hp.draft] at hsome
    exact absurd rfl hsome
  · exact hp.on ((List.prefix_append _ _).trans hway)
  · exact hp.keeps.2 _ (h.closed below last (hsame ▸ hsome))

end Tree
end StyleFamily
