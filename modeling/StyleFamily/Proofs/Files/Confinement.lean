import StyleFamily.Proofs.Files.DirectorySink
import StyleFamily.Proofs.Files.Frame

/-!
# What a directory sink leaves alone

The files are a tree on which writing and moving may fail at any time. A sink that is handed a unit
changes no file but the one at the unit's path, whatever it answers, and creates no directory but
those above that path. The sibling that the new content is written to first is the sink's own: a
file that stood there before is gone when the content could be moved, and also when it could not.
-/
namespace StyleFamily

/-- Files that are a tree, as a view of the state shows it. Writing and moving may fail where the
tree does not say why: a file that could not be moved stays, and one that could not be written may
hold a part of its text or anything else. -/
structure FileAccess.ActsOn {σ : Type} (files : FileAccess (StateM σ)) (view : σ → Tree) :
    Prop where
  read : ∀ {path s next found}, (files.read path).run s = (found, next) →
    found = (view s).read path ∧ view next = view s
  createDirectories : ∀ {path s next ready}, (files.createDirectories path).run s = (ready, next) →
    (view s).createDirectories path = (ready, view next)
  written : ∀ {path text s next}, (files.write path text).run s = (true, next) →
    (view s).write path text = (true, view next)
  unwritten : ∀ {path text s next}, (files.write path text).run s = (false, next) →
    view next = view s ∨ ∃ part, (view s).write path part = (true, view next)
  moved : ∀ {source destination s next},
    (files.rename source destination).run s = (true, next) →
      (view s).rename source destination = (true, view next)
  unmoved : ∀ {source destination s next},
    (files.rename source destination).run s = (false, next) → view next = view s
  remove : ∀ {path s next answer}, (files.remove path).run s = (answer, next) →
    view next = (view s).remove path

/-- What may differ once a file was to be placed at a path: new directories above it, the file
itself, and its draft, which is left as it was or gone. -/
structure Tree.Confined (path : Path) (before after : Tree) : Prop where
  keeps : before.KeepsDirectories after
  gained : ∀ place, after.entry? place = some .directory →
    before.entry? place = some .directory ∨
      before.entry? place = none ∧ ∃ above, above.IsAbove path ∧ after.locate above = .ok place
  same : ∀ place, after.locate path ≠ .ok place → after.locate path.draft ≠ .ok place →
    after.file? place = before.file? place
  draft : ∀ place, after.locate path.draft = .ok place →
    after.file? place = before.file? place ∨ after.file? place = none

namespace Tree

theorem Confined.refl (path : Path) (tree : Tree) : Confined path tree tree :=
  ⟨⟨rfl, fun _ h => h⟩, fun _ => .inl, fun _ _ _ => rfl, fun _ _ => .inl rfl⟩

/-- First directories, then files. -/
theorem GainsDirectories.confined {path : Path} {before between after : Tree}
    (hg : before.GainsDirectories (·.IsAbove path) between)
    (hs : between.SameOff [path.draft, path] after)
    (hd : ∀ place, after.locate path.draft = .ok place →
      after.file? place = between.file? place ∨ after.file? place = none) :
    Confined path before after where
  keeps := hg.keeps.trans hs.keeps
  gained := by
    intro place hplace
    have hbetween := hs.directory place hplace
    rcases hg.gained place with hsame | ⟨hfree, _, above, habove, hl⟩
    · exact .inl (hsame ▸ hbetween)
    · exact .inr ⟨hfree, above, habove, locate_of_keepsDirectories hs.keeps hl⟩
  same := by
    intro place hpath hdraft
    have hentry : after.entry? place = between.entry? place :=
      hs.same place fun p hp => by
        obtain rfl | rfl : p = path.draft ∨ p = path := by simpa using hp
        · exact hdraft
        · exact hpath
    rw [← hg.file?_eq place, file?, file?, hentry]
  draft := by
    intro place hplace
    rw [← hg.file?_eq place]
    exact hd place hplace

end Tree

section
variable {σ : Type} {files : FileAccess (StateM σ)} {view : σ → Tree}

/-- Operations that succeed on a tree have had their effect. -/
theorem FileAccess.ActsOn.keeps (hf : files.ActsOn view) :
    files.Keeps fun s => (view s).read where
  read h := by
    obtain ⟨hfound, hview⟩ := hf.read h
    rw [hview, ← hfound]
  write h := Tree.read_write (hf.written h)
  rename h := Tree.read_rename (hf.moved h)

theorem prepare_gains (hf : files.ActsOn view) {path : Path} {s next : σ} {ready : Bool}
    (h : (files.prepare path).run s = (ready, next)) :
    (view s).GainsDirectories (·.IsAbove path) (view next) := by
  rw [FileAccess.prepare] at h
  rcases hp : path.parent? with _ | above
  · simp only [hp] at h
    obtain ⟨_, rfl⟩ := Prod.mk.inj h
    exact .refl _ _
  · simp only [hp] at h
    refine (Tree.createDirectoriesWithin_gains (hf.createDirectories h)).mono fun p => ?_
    rintro (rfl | habove)
    · exact .parent hp
    · exact habove.trans (.parent hp)

theorem write_draft_sameOff (hf : files.ActsOn view) {path : Path} {text : String} {s next : σ}
    {written : Bool} (h : (files.write path text).run s = (written, next)) :
    (view s).SameOff [path] (view next) := by
  cases written with
  | true => exact Tree.write_sameOff (hf.written h)
  | false =>
    rcases hf.unwritten h with hsame | ⟨part, hpart⟩
    · rw [hsame]
      exact .refl _ _
    · exact Tree.write_sameOff hpart

/-- The draft is gone once it was discarded. -/
theorem discard_sameOff (hf : files.ActsOn view) {path : Path} {s last : σ} {answer : Bool}
    (h : (do files.remove path.draft; return false : StateM σ Bool).run s = (answer, last)) :
    answer = false ∧ (view s).SameOff [path.draft] (view last) ∧
      ∀ place, (view last).locate path.draft = .ok place → (view last).file? place = none := by
  obtain ⟨_, next, hremove, h⟩ := exists_run_of_bind h
  obtain ⟨hanswer, rfl⟩ := Prod.mk.inj h
  rw [hf.remove hremove]
  exact ⟨hanswer.symm, Tree.remove_sameOff _ _, fun place =>
    Tree.file?_remove (Tree.endsAsDirectory_draft path)⟩

/-- A replacement that succeeds changes the file and its draft, one that fails the draft only. -/
theorem replace_confined (hf : files.ActsOn view) {path : Path} {text : String} {s last : σ}
    {replaced : Bool} (h : (files.replace path text).run s = (replaced, last)) :
    Tree.Confined path (view s) (view last) ∧
      (replaced = false → ∀ place, (view last).locate path = .ok place →
        (view last).file? place = (view s).file? place) := by
  rw [replace_eq] at h
  obtain ⟨ready, s1, hready, h⟩ := exists_run_of_bind h
  have hgains := prepare_gains hf hready
  have hfailed : (view s1).SameOff [path.draft] (view last) →
      (∀ place, (view last).locate path.draft = .ok place →
        (view last).file? place = (view s1).file? place ∨ (view last).file? place = none) →
      Tree.Confined path (view s) (view last) ∧
        (replaced = false → ∀ place, (view last).locate path = .ok place →
          (view last).file? place = (view s).file? place) := by
    intro hsame hdraft
    refine ⟨hgains.confined (hsame.mono (by simp)) hdraft, fun _ place hplace => ?_⟩
    have hentry : Tree.entry? (view last) place = Tree.entry? (view s1) place :=
      hsame.same place fun p hp => by
        obtain rfl : p = path.draft := by simpa using hp
        exact Tree.locate_draft_ne hplace
    rw [← hgains.file?_eq place, Tree.file?, Tree.file?, hentry]
  cases ready with
  | false =>
    obtain rfl : s1 = last := (Prod.mk.inj h).2
    exact hfailed (.refl _ _) fun _ _ => .inl rfl
  | true =>
    obtain ⟨drafted, s2, hdraft, h⟩ := exists_run_of_bind h
    have hwrite := write_draft_sameOff hf hdraft
    cases drafted with
    | false =>
      obtain ⟨_, hsame, hgone⟩ := discard_sameOff hf h
      exact hfailed (hwrite.trans hsame) fun place hplace => .inr (hgone place hplace)
    | true =>
      obtain ⟨moved, s3, hmove, h⟩ := exists_run_of_bind h
      cases moved with
      | false =>
        obtain ⟨_, hsame, hgone⟩ := discard_sameOff hf h
        rw [hf.unmoved hmove] at hsame
        exact hfailed (hwrite.trans hsame) fun place hplace => .inr (hgone place hplace)
      | true =>
        obtain ⟨rfl, rfl⟩ : true = replaced ∧ s3 = last := Prod.mk.inj h
        obtain ⟨hsame, hgone⟩ := Tree.rename_sameOff (hf.moved hmove)
        refine ⟨hgains.confined ((hwrite.mono (by simp)).trans hsame) fun place hplace => ?_,
          by simp⟩
        exact .inr (hgone place hplace fun hpath => Tree.locate_draft_ne hpath hplace)

/-- A unit that is handed over changes its file and its draft only. -/
theorem accept_confines (hf : files.ActsOn view) {unit : SourceUnit} {target : Target} {s last : σ}
    {answer : Except SinkError Receipt}
    (h : ((Sink.directory files).accept unit target).run s = (answer, last)) :
    Tree.Confined (target.pathOf unit) (view s) (view last) := by
  obtain ⟨found, between, hread, ⟨_, _, rfl⟩ | ⟨_, replaced, hreplace, _⟩⟩ := accept_cases h
  · rw [(hf.read hread).2]
    exact .refl _ _
  · rw [← (hf.read hread).2]
    exact (replace_confined hf hreplace).1

/-- A unit that is taken stands at its path, and it is reported as unchanged just if it stood there
before; a unit that is not taken leaves the file at its path as it was. Either way, no other file
changes but for a draft that goes, none appears, and no directory but those above the path. -/
theorem accept_confined (hf : files.ActsOn view) (unit : SourceUnit) (target : Target) (s : σ) :
    ∃ answer last, ((Sink.directory files).accept unit target).run s = (answer, last) ∧
      Tree.Confined (target.pathOf unit) (view s) (view last) ∧
      (∀ receipt, answer = .ok receipt →
        receipt.path = target.pathOf unit ∧
        (view last).read receipt.path = some unit.content ∧
        (receipt.result = .unchanged ↔
          (view s).read (target.pathOf unit) = some unit.content) ∧
        (receipt.result = .unchanged → view last = view s)) ∧
      (∀ error, answer = .error error →
        error = .unwritable (target.pathOf unit) ∧
        ∀ place, (view last).locate (target.pathOf unit) = .ok place →
          (view last).file? place = (view s).file? place) := by
  obtain ⟨⟨answer, last⟩, hrun⟩ :
      ∃ result, ((Sink.directory files).accept unit target).run s = result := ⟨_, rfl⟩
  obtain ⟨found, between, hread, hcases⟩ := accept_cases hrun
  obtain ⟨hfound, hview⟩ := hf.read hread
  refine ⟨answer, last, hrun, accept_confines hf hrun, fun receipt he => ?_, fun error he => ?_⟩
  · subst he
    obtain ⟨hpath, hcontent⟩ := accept_keeps hf.keeps hrun
    rw [← hfound]
    obtain ⟨hsame, hanswer, rfl⟩ | ⟨hother, replaced, _, hanswer⟩ := hcases
    · obtain rfl := Except.ok.inj hanswer
      exact ⟨hpath, hcontent, ⟨fun _ => hsame, fun _ => rfl⟩, fun _ => hview⟩
    · have hwritten : receipt.result ≠ .unchanged := by
        cases replaced with
        | false => cases hanswer
        | true =>
          obtain rfl := Except.ok.inj hanswer
          nofun
      exact ⟨hpath, hcontent, ⟨fun hr => absurd hr hwritten, fun hsame => absurd hsame hother⟩,
        fun hr => absurd hr hwritten⟩
  · subst he
    refine ⟨accept_error hrun, ?_⟩
    obtain ⟨_, hanswer, _⟩ | ⟨_, replaced, hreplace, hanswer⟩ := hcases
    · cases hanswer
    · cases replaced with
      | false =>
        rw [← hview]
        exact (replace_confined hf hreplace).2 rfl
      | true => cases hanswer

end

namespace Tree

/-- The operations of a tree act on it, and one that fails leaves it as it was. -/
theorem access_actsOn : access.ActsOn id where
  read h := by
    obtain ⟨rfl, rfl⟩ := Prod.mk.inj h
    exact ⟨rfl, rfl⟩
  createDirectories h := h
  written h := h
  unwritten h := .inl (eq_of_write_false h)
  moved h := h
  unmoved h := eq_of_rename_false h
  remove h := (Prod.mk.inj h).2.symm

/-- The operations on a tree without room: a file is created, and nothing of its text is kept. -/
def fullAccess : FileAccess (StateM Tree) :=
  { access with write := fun path _ => modifyGet fun tree => (false, (tree.write path "").2) }

theorem fullAccess_actsOn : fullAccess.ActsOn id :=
  { access_actsOn with
    written := fun h => absurd (Prod.mk.inj h).1 (by decide)
    unwritten := fun {path text s next} h => by
      obtain ⟨_, rfl⟩ := Prod.mk.inj h
      rw [id, id, write]
      cases hs : s.fileSlot? path with
      | none => exact .inl rfl
      | some place => exact .inr ⟨"", by simp [write, hs]⟩ }

end Tree

/-- A unit with new content. -/
def chipUnit : SourceUnit := ⟨"ChipStyle", "", "kt", "new"⟩

/-- The unit's file as it was, in a directory of its own. -/
def chipTree : Tree where
  entries := [(["out"], .directory), (["out", "ChipStyle.kt"], .file "old")]

theorem chip_confined_on_full_disk :
    Tree.fullAccess.ActsOn id ∧ ∃ last,
      ((Sink.directory Tree.fullAccess).accept chipUnit ⟨"", ⟨"out"⟩⟩).run chipTree =
        (.error (.unwritable ⟨"out/ChipStyle.kt"⟩), last) ∧
      Tree.Confined ⟨"out/ChipStyle.kt"⟩ chipTree last ∧
      last.file? ["out", "ChipStyle.kt"] = some "old" := by
  obtain ⟨answer, last, hrun, hconfined, _, hrefused⟩ :=
    accept_confined Tree.fullAccess_actsOn chipUnit ⟨"", ⟨"out"⟩⟩ chipTree
  have hpath : Target.pathOf ⟨"", ⟨"out"⟩⟩ chipUnit = ⟨"out/ChipStyle.kt"⟩ := by decide
  rw [hpath] at hconfined hrefused
  have hanswer : answer = .error (.unwritable ⟨"out/ChipStyle.kt"⟩) :=
    (congrArg Prod.fst hrun).symm
  subst hanswer
  refine ⟨Tree.fullAccess_actsOn, last, hrun, hconfined, ?_⟩
  have hplace : last.locate ⟨"out/ChipStyle.kt"⟩ = .ok ["out", "ChipStyle.kt"] :=
    Tree.locate_of_keepsDirectories hconfined.keeps rfl
  exact ((hrefused _ rfl).2 _ hplace).trans (by decide)

/-- A file of another's that stands where the draft goes. -/
def crowdedTree : Tree where
  entries := [(["out"], .directory), (["out", "ChipStyle.kt.tmp"], .file "keep")]

/-- The sink takes a unit, and a file that is not at the unit's path is lost. -/
theorem crowded_file_lost : ∃ last,
    ((Sink.directory Tree.access).accept chipUnit ⟨"", ⟨"out"⟩⟩).run crowdedTree =
      (.ok ⟨⟨"out/ChipStyle.kt"⟩, .written⟩, last) ∧
    last.locate ⟨"out/ChipStyle.kt"⟩ = .ok ["out", "ChipStyle.kt"] ∧
    crowdedTree.file? ["out", "ChipStyle.kt.tmp"] = some "keep" ∧
    last.file? ["out", "ChipStyle.kt.tmp"] = none :=
  ⟨_, rfl, rfl, rfl, rfl⟩

end StyleFamily
