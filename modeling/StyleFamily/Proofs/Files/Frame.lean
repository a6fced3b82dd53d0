import StyleFamily.Files.Sink
import StyleFamily.Proofs.Files.Tree
import StyleFamily.Proofs.Text.Pieces

/-!
# What file operations leave alone

Creating directories adds directories at free places and nothing else. Writing, moving and removing
a file change nothing but the places their paths mean. The draft of a file never stands at the
place of the file itself.
-/
namespace StyleFamily

namespace Tree

/-- A path and its draft are spelled with the same segments but for the last one. -/
theorem segments_draft (path : Path) : ∃ init last,
    Text.splitAt '/' path.text = init ++ [last] ∧
      Text.splitAt '/' path.draft.text = init ++ [last ++ ".tmp"] := by
  have hsep : '/' ∉ ".tmp".toList := by decide
  obtain ⟨init, last, hp, hd⟩ := pieces_append hsep path.text.toList
  refine ⟨init.map String.ofList, String.ofList last, ?_, ?_⟩
  · rw [Text.splitAt, hp, List.map_append, List.map_singleton]
  · rw [Text.splitAt, Path.draft, String.toList_append, hd, List.map_append, List.map_singleton,
      String.ofList_append, String.ofList_toList]

theorem length_draft_segment (last : String) : (last ++ ".tmp").length = last.length + 4 := by
  have hending : ".tmp".length = 4 := by decide
  rw [String.length_append, hending]

/-- The last segment of a draft is a name of its own, and none that stays or goes up. -/
theorem draft_segment_ne (last : String) :
    last ++ ".tmp" ≠ "" ∧ last ++ ".tmp" ≠ "." ∧ last ++ ".tmp" ≠ ".." := by
  have hshort : "".length < 4 ∧ ".".length < 4 ∧ "..".length < 4 := by decide
  have hlong := length_draft_segment last
  refine ⟨fun he => ?_, fun he => ?_, fun he => ?_⟩ <;>
  · rw [he] at hlong
    omega

theorem ne_draft_segment (last : String) : last ≠ last ++ ".tmp" := by
  intro he
  have hlength := congrArg String.length he
  rw [length_draft_segment last] at hlength
  omega

/-- A draft is never taken for a directory. -/
theorem endsAsDirectory_draft (path : Path) : endsAsDirectory path.draft = false := by
  obtain ⟨init, last, _, hd⟩ := segments_draft path
  obtain ⟨hempty, hdot, hup⟩ := draft_segment_ne last
  simp [endsAsDirectory, hd, hempty, hdot, hup]

/-- The names of a path and those of its draft differ in the last one only. -/
theorem namesOf_draft (path : Path) : ∃ names last,
    namesOf path = names ++ (if last = "" then [] else [last]) ∧
      namesOf path.draft = names ++ [last ++ ".tmp"] := by
  obtain ⟨init, last, hp, hd⟩ := segments_draft path
  refine ⟨init.filter (· ≠ ""), last, ?_, ?_⟩
  · rw [namesOf, hp, List.filter_append]
    by_cases hl : last = "" <;> simp [hl]
  · rw [namesOf, hd, List.filter_append]
    simp [(draft_segment_ne last).1]

theorem walk_append (tree : Tree) (place : Place) (first rest : List String) :
    tree.walk place (first ++ rest) =
      (tree.walk place first).bind fun between => tree.walk between rest := by
  induction first generalizing place with
  | nil => rfl
  | cons name more ih =>
    rw [List.cons_append, walk, walk]
    rcases tree.entry? place with _ | ⟨_ | text⟩
    · rfl
    · simp only [ih]
      split
      · rfl
      · split
        · rfl
        · split <;> rfl
    · rfl

/-- One more name stays, goes up, or goes down by that name. -/
theorem walk_singleton {tree : Tree} {place found : Place} {name : String}
    (h : tree.walk place [name] = .ok found) :
    name = "." ∧ found = place ∨ name = ".." ∧ found = place.dropLast ∨
      found = place ++ [name] := by
  rw [walk] at h
  rcases he : tree.entry? place with _ | ⟨_ | text⟩
  · simp [he] at h
  · simp only [he] at h
    split at h
    · next hdot => exact .inl ⟨hdot, (Except.ok.inj h).symm⟩
    · split at h
      · next hup => exact .inr (.inl ⟨hup, (Except.ok.inj h).symm⟩)
      · split at h
        · exact .inr (.inr (Except.ok.inj h).symm)
        · simp at h
  · simp [he] at h

theorem walk_of_locate {tree : Tree} {path : Path} {place : Place}
    (h : tree.locate path = .ok place) :
    tree.walk (if path.isAbsolute then [] else tree.workingDirectory) (namesOf path) =
      .ok place := by
  rw [locate] at h
  split at h
  · simp at h
  · split at h
    · simp at h
    · exact h

theorem isAbsolute_draft {tree : Tree} {path : Path} {place : Place}
    (h : tree.locate path = .ok place) : path.draft.isAbsolute = path.isAbsolute := by
  have hne : path.text.toList ≠ [] := by
    intro he
    have : path.text = "" := by simpa using he
    simp [locate, this] at h
  obtain ⟨c, rest, he⟩ := List.exists_cons_of_ne_nil hne
  simp only [Path.isAbsolute, Path.draft, String.toList_append, he, List.cons_append,
    List.head?_cons]

/-- The draft of a file stands beside the file or deeper, never in its place. -/
theorem locate_draft_ne {tree : Tree} {path : Path} {place : Place}
    (h : tree.locate path = .ok place) : tree.locate path.draft ≠ .ok place := by
  intro hd
  obtain ⟨names, last, hp, hdraft⟩ := namesOf_draft path
  have hwalk := walk_of_locate h
  have hwalkDraft := walk_of_locate hd
  rw [isAbsolute_draft h, hdraft, walk_append] at hwalkDraft
  rw [hp, walk_append] at hwalk
  rcases hq : tree.walk (if path.isAbsolute then [] else tree.workingDirectory) names with e | q
  · simp [hq, Except.bind] at hwalk
  rw [hq] at hwalk hwalkDraft
  have hlast : place = q ++ [last ++ ".tmp"] := by
    obtain ⟨_, hdotNe, hupNe⟩ := draft_segment_ne last
    rcases walk_singleton hwalkDraft with ⟨hdot, _⟩ | ⟨hup, _⟩ | hdown
    · exact absurd hdot hdotNe
    · exact absurd hup hupNe
    · exact hdown
  by_cases he : last = ""
  · rw [if_pos he] at hwalk
    obtain rfl : q = place := Except.ok.inj hwalk
    simp at hlast
  · rw [if_neg he] at hwalk
    rcases walk_singleton hwalk with ⟨_, rfl⟩ | ⟨_, rfl⟩ | rfl
    · simp at hlast
    · have hlength := congrArg List.length hlast
      simp only [List.length_dropLast, List.length_append, List.length_singleton] at hlength
      omega
    · exact ne_draft_segment last (by simpa using hlast)

end Tree

/-- The path above is reached from the other by taking components away, one or more of them. -/
inductive Path.IsAbove : Path → Path → Prop
  | parent {path above : Path} : path.parent? = some above → IsAbove above path
  | further {path p above : Path} : IsAbove p path → p.parent? = some above → IsAbove above path

theorem Path.IsAbove.trans {first second third : Path} (h : first.IsAbove second)
    (h' : second.IsAbove third) : first.IsAbove third := by
  induction h with
  | parent hp => exact .further h' hp
  | further _ hp ih => exact .further (ih h') hp

namespace Tree

/-- A tree with directories put at free places, each of them meant by one of some paths. -/
structure GainsDirectories (paths : Path → Prop) (tree next : Tree) : Prop where
  keeps : tree.KeepsDirectories next
  gained : ∀ place, next.entry? place = tree.entry? place ∨
    tree.entry? place = none ∧ next.entry? place = some .directory ∧
      ∃ path, paths path ∧ next.locate path = .ok place

theorem GainsDirectories.refl (paths : Path → Prop) (tree : Tree) :
    tree.GainsDirectories paths tree :=
  ⟨⟨rfl, fun _ h => h⟩, fun _ => .inl rfl⟩

theorem GainsDirectories.trans {paths : Path → Prop} {first second third : Tree}
    (h : first.GainsDirectories paths second) (h' : second.GainsDirectories paths third) :
    first.GainsDirectories paths third := by
  refine ⟨h.keeps.trans h'.keeps, fun place => ?_⟩
  rcases h.gained place with hsame | ⟨hfree, hdir, path, hp, hl⟩
  · rcases h'.gained place with hsame' | ⟨hfree, hgained⟩
    · exact .inl (hsame'.trans hsame)
    · exact .inr ⟨hsame ▸ hfree, hgained⟩
  · exact .inr ⟨hfree, h'.keeps.2 place hdir, path, hp, locate_of_keepsDirectories h'.keeps hl⟩

theorem GainsDirectories.mono {paths more : Path → Prop} {tree next : Tree}
    (h : tree.GainsDirectories paths next) (hm : ∀ path, paths path → more path) :
    tree.GainsDirectories more next := by
  refine ⟨h.keeps, fun place => ?_⟩
  rcases h.gained place with hsame | ⟨hfree, hdir, path, hp, hl⟩
  · exact .inl hsame
  · exact .inr ⟨hfree, hdir, path, hm path hp, hl⟩

theorem createDirectory_gains {tree next : Tree} {path : Path}
    (h : tree.createDirectory path = .ok next) : tree.GainsDirectories (· = path) next := by
  unfold createDirectory at h
  rcases hl : tree.locate path with obstacle | place
  · simp [hl, bind, Except.bind] at h
  · simp only [hl, bind, Except.bind] at h
    split at h
    · simp at h
    · next hfree _ =>
      obtain rfl := Except.ok.inj h
      have hkeeps : tree.KeepsDirectories (tree.put place .directory) :=
        keepsDirectories_put .directory (by simp [hfree])
      refine ⟨hkeeps, fun other => ?_⟩
      by_cases he : other = place
      · subst he
        have hne : other ≠ [] := by
          rintro rfl
          unfold entry? at hfree
          cases hfree
        exact .inr ⟨hfree, entry?_put_self .directory hne, path, rfl,
          locate_of_keepsDirectories hkeeps hl⟩
      · exact .inl (entry?_put_of_ne .directory he)
    · simp at h
    · simp at h

theorem createDirectoriesWithin_gains {fuel : Nat} {tree next : Tree} {path : Path} {ready : Bool}
    (h : createDirectoriesWithin fuel tree path = (ready, next)) :
    tree.GainsDirectories (fun p => p = path ∨ p.IsAbove path) next := by
  induction fuel generalizing tree next path ready with
  | zero =>
    obtain ⟨_, rfl⟩ := Prod.mk.inj h
    exact .refl _ tree
  | succ fuel ih =>
    have hcreate : ∀ {tree next : Tree}, tree.createDirectory path = .ok next →
        tree.GainsDirectories (fun p => p = path ∨ p.IsAbove path) next :=
      fun hc => (createDirectory_gains hc).mono fun _ => .inl
    rw [createDirectoriesWithin] at h
    split at h
    · obtain ⟨_, rfl⟩ := Prod.mk.inj h
      exact .refl _ tree
    · rcases hc : tree.createDirectory path with (_ | _) | created
      · simp only [hc] at h
        rcases hp : path.parent? with _ | above
        · simp only [hp] at h
          obtain ⟨_, rfl⟩ := Prod.mk.inj h
          exact .refl _ tree
        · simp only [hp] at h
          rcases ha : createDirectoriesWithin fuel tree above with ⟨_ | _, between⟩
          all_goals
            have habove : tree.GainsDirectories (fun p => p = path ∨ p.IsAbove path) between := by
              refine (ih ha).mono fun p => ?_
              rintro (rfl | hp')
              · exact .inr (.parent hp)
              · exact .inr (hp'.trans (.parent hp))
            simp only [ha] at h
          · obtain ⟨_, rfl⟩ := Prod.mk.inj h
            exact habove
          · rcases hc' : between.createDirectory path with obstacle | created
            · simp only [hc'] at h
              obtain ⟨_, rfl⟩ := Prod.mk.inj h
              exact habove
            · simp only [hc'] at h
              obtain ⟨_, rfl⟩ := Prod.mk.inj h
              exact habove.trans (hcreate hc')
      · simp only [hc] at h
        obtain ⟨_, rfl⟩ := Prod.mk.inj h
        exact .refl _ tree
      · simp only [hc] at h
        obtain ⟨_, rfl⟩ := Prod.mk.inj h
        exact hcreate hc

/-- The text of the file at a place, if a file stands there. -/
def file? (tree : Tree) (place : Place) : Option String :=
  match tree.entry? place with
  | some (.file text) => some text
  | _ => none

theorem entry?_of_file? {tree : Tree} {place : Place} {text : String}
    (h : tree.file? place = some text) : tree.entry? place = some (.file text) := by
  rcases he : tree.entry? place with _ | _ | found <;> simp [file?, he] at h
  rw [h]

theorem entry?_of_file?_none {tree : Tree} {place : Place} (h : tree.file? place = none) :
    tree.entry? place = none ∨ tree.entry? place = some .directory := by
  rcases he : tree.entry? place with _ | _ | text
  · exact .inl rfl
  · exact .inr rfl
  · simp [file?, he] at h

/-- A directory that is new stands where no file stood. -/
theorem GainsDirectories.file?_eq {paths : Path → Prop} {tree next : Tree}
    (h : tree.GainsDirectories paths next) (place : Place) :
    next.file? place = tree.file? place := by
  rcases h.gained place with hsame | ⟨hfree, hdir, _⟩
  · rw [file?, file?, hsame]
  · rw [file?, file?, hfree, hdir]

/-- Nothing differs but at the places that some paths mean, and the directories are the same. -/
structure SameOff (paths : List Path) (tree next : Tree) : Prop where
  keeps : tree.KeepsDirectories next
  directory : ∀ place, next.entry? place = some .directory → tree.entry? place = some .directory
  same : ∀ place, (∀ path ∈ paths, next.locate path ≠ .ok place) →
    next.entry? place = tree.entry? place

theorem SameOff.refl (paths : List Path) (tree : Tree) : tree.SameOff paths tree :=
  ⟨⟨rfl, fun _ h => h⟩, fun _ h => h, fun _ _ => rfl⟩

/-- A path that meant a place in between means it still. -/
theorem SameOff.trans {paths : List Path} {first second third : Tree}
    (h : first.SameOff paths second) (h' : second.SameOff paths third) :
    first.SameOff paths third := by
  refine ⟨h.keeps.trans h'.keeps, fun place hd => h.directory place (h'.directory place hd), ?_⟩
  intro place hplace
  rw [h'.same place hplace]
  exact h.same place fun path hp hl => hplace path hp (locate_of_keepsDirectories h'.keeps hl)

theorem SameOff.mono {paths more : List Path} {tree next : Tree} (h : tree.SameOff paths next)
    (hm : paths ⊆ more) : tree.SameOff more next :=
  ⟨h.keeps, h.directory, fun place hplace => h.same place fun path hp => hplace path (hm hp)⟩

theorem ne_root {tree : Tree} {place : Place} (h : tree.entry? place ≠ some .directory) :
    place ≠ [] := by
  rintro rfl
  exact h rfl

/-- A tree that differs at one place only, and has no directory there. -/
theorem sameOff_of_eq_off {tree next : Tree} {path : Path} {place : Place}
    (hl : tree.locate path = .ok place) (hkeeps : tree.KeepsDirectories next)
    (hplace : next.entry? place ≠ some .directory)
    (hoff : ∀ other, other ≠ place → next.entry? other = tree.entry? other) :
    tree.SameOff [path] next where
  keeps := hkeeps
  directory other hd := by
    by_cases he : other = place
    · exact absurd (he ▸ hd) hplace
    · rwa [hoff other he] at hd
  same other hother := hoff other fun he =>
    hother path (List.mem_singleton_self path) (he ▸ locate_of_keepsDirectories hkeeps hl)

theorem put_file_sameOff {tree : Tree} {path : Path} {place : Place} (text : String)
    (hl : tree.locate path = .ok place) (hdir : tree.entry? place ≠ some .directory) :
    tree.SameOff [path] (tree.put place (.file text)) := by
  refine sameOff_of_eq_off hl (keepsDirectories_put (.file text) hdir) ?_
    fun _ he => entry?_put_of_ne _ he
  simp [entry?_put_self _ (ne_root hdir)]

theorem erase_sameOff {tree : Tree} {path : Path} {place : Place}
    (hl : tree.locate path = .ok place) (hdir : tree.entry? place ≠ some .directory) :
    tree.SameOff [path] (tree.erase place) := by
  refine sameOff_of_eq_off hl (keepsDirectories_erase hdir) ?_ fun _ he => entry?_erase_of_ne he
  simp [entry?_erase_self (ne_root hdir)]

theorem write_sameOff {tree next : Tree} {path : Path} {text : String}
    (h : tree.write path text = (true, next)) : tree.SameOff [path] next := by
  rw [write] at h
  rcases hs : tree.fileSlot? path with _ | place
  · simp [hs] at h
  · obtain rfl : tree.put place (.file text) = next := by simpa [hs] using h
    obtain ⟨hl, _, _, hdir⟩ := fileSlot?_eq_some hs
    exact put_file_sameOff text hl hdir

theorem eq_of_write_false {tree next : Tree} {path : Path} {text : String}
    (h : tree.write path text = (false, next)) : next = tree := by
  rw [write] at h
  split at h
  · simp at h
  · exact (Prod.mk.inj h).2.symm

theorem eq_of_rename_false {tree next : Tree} {source destination : Path}
    (h : tree.rename source destination = (false, next)) : next = tree := by
  rw [rename] at h
  split at h
  · simp at h
  · exact (Prod.mk.inj h).2.symm

/-- A file that is moved leaves nothing behind. -/
theorem rename_sameOff {tree next : Tree} {source destination : Path}
    (h : tree.rename source destination = (true, next)) :
    tree.SameOff [source, destination] next ∧ ∀ place, next.locate source = .ok place →
      next.locate destination ≠ .ok place → next.file? place = none := by
  rw [rename] at h
  rcases ht : tree.read source with _ | text
  · simp [ht] at h
  rcases ho : tree.fileSlot? source with _ | old
  · simp [ht, ho] at h
  rcases hw : tree.fileSlot? destination with _ | new
  · simp [ht, ho, hw] at h
  obtain rfl : (tree.erase old).put new (.file text) = next := by simpa [ht, ho, hw] using h
  obtain ⟨hold, _, _, holdDir⟩ := fileSlot?_eq_some ho
  obtain ⟨hnew, _, _, hnewDir⟩ := fileSlot?_eq_some hw
  have herase : tree.SameOff [source] (tree.erase old) := erase_sameOff hold holdDir
  have hput : (tree.erase old).SameOff [destination] ((tree.erase old).put new (.file text)) :=
    put_file_sameOff text (locate_of_keepsDirectories herase.keeps hnew)
      fun hd => hnewDir (herase.directory new hd)
  have hboth : tree.SameOff [source, destination] ((tree.erase old).put new (.file text)) :=
    (herase.mono (by simp)).trans (hput.mono (by simp))
  refine ⟨hboth, fun place hs hd => ?_⟩
  obtain rfl : old = place := by
    simpa [locate_of_keepsDirectories hboth.keeps hold] using hs
  have hne : old ≠ new := by
    rintro rfl
    exact hd (locate_of_keepsDirectories hboth.keeps hnew)
  rw [file?, entry?_put_of_ne _ hne, entry?_erase_self (ne_root holdDir)]

theorem remove_sameOff (tree : Tree) (path : Path) : tree.SameOff [path] (tree.remove path) := by
  rw [remove]
  rcases hr : tree.read path with _ | text
  · exact .refl _ tree
  · rcases hl : tree.locate path with obstacle | place
    · exact .refl _ tree
    · refine erase_sameOff hl fun hdir => ?_
      simp [read, at?, hl, hdir] at hr

/-- No file stands any more where a removed one stood. -/
theorem file?_remove {tree : Tree} {path : Path} {place : Place}
    (hend : endsAsDirectory path = false) (hl : (tree.remove path).locate path = .ok place) :
    (tree.remove path).file? place = none := by
  rw [remove] at hl ⊢
  rcases hr : tree.read path with _ | text
  · simp only [hr] at hl ⊢
    rw [file?]
    split
    · next text he => simp [read, at?, hl, he, hend] at hr
    · rfl
  · rcases hp : tree.locate path with obstacle | found
    · simp [read, at?, hp] at hr
    · simp only [hr, hp] at hl ⊢
      have hdir : tree.entry? found ≠ some .directory := by
        intro hd
        simp [read, at?, hp, hd] at hr
      obtain rfl : found = place := by
        simpa [locate_of_keepsDirectories (keepsDirectories_erase hdir) hp] using hl
      rw [file?, entry?_erase_self (ne_root hdir)]

end Tree
end StyleFamily
