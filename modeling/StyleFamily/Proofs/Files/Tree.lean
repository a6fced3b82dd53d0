import StyleFamily.Files.Tree

/-!
# Reading back from a tree

A path leads through directories only. Changes that leave every directory in place therefore do
not change where a path leads, and a file that was written or moved is read back from there.
-/
namespace StyleFamily
namespace Tree

theorem lookup_filter_ne {entries : List (Place × Entry)} {p q : Place} (h : p ≠ q) :
    (entries.filter (·.1 ≠ q)).lookup p = entries.lookup p := by
  induction entries with
  | nil => rfl
  | cons entry rest ih =>
    obtain ⟨place, e⟩ := entry
    by_cases hq : place = q
    · have hp : (p == q) = false := beq_eq_false_iff_ne.mpr h
      simp only [List.filter_cons, ne_eq, hq, not_true_eq_false, decide_false, Bool.false_eq_true,
        ↓reduceIte, List.lookup_cons, hp, ih]
    · simp only [List.filter_cons, ne_eq, hq, not_false_eq_true, decide_true, ↓reduceIte,
        List.lookup_cons, ih]

theorem entry?_put_self {tree : Tree} {place : Place} (entry : Entry) (h : place ≠ []) :
    Tree.entry? (tree.put place entry) place = some entry := by
  simp [put, entry?, h]

theorem entry?_put_of_ne {tree : Tree} {place other : Place} (entry : Entry) (h : other ≠ place) :
    Tree.entry? (tree.put place entry) other = tree.entry? other := by
  have hb : (other == place) = false := beq_eq_false_iff_ne.mpr h
  unfold entry?
  rw [put, List.lookup_cons, hb, lookup_filter_ne h]

theorem entry?_erase_of_ne {tree : Tree} {place other : Place} (h : other ≠ place) :
    Tree.entry? (tree.erase place) other = tree.entry? other := by
  unfold entry?
  rw [erase, lookup_filter_ne h]

theorem entry?_erase_self {tree : Tree} {place : Place} (h : place ≠ []) :
    Tree.entry? (tree.erase place) place = none := by
  unfold entry?
  rw [if_neg h, erase, List.lookup_eq_none_iff]
  intro entry he
  have hne : entry.1 ≠ place := by simpa using (List.mem_filter.mp he).2
  simpa using hne.symm

/-- Every directory of the one tree is a directory of the other. -/
def KeepsDirectories (tree next : Tree) : Prop :=
  next.workingDirectory = tree.workingDirectory ∧
    ∀ place, tree.entry? place = some .directory → next.entry? place = some .directory

theorem KeepsDirectories.trans {first second third : Tree} (h : first.KeepsDirectories second)
    (h' : second.KeepsDirectories third) : first.KeepsDirectories third :=
  ⟨h'.1.trans h.1, fun place hp => h'.2 place (h.2 place hp)⟩

theorem keepsDirectories_put {tree : Tree} {place : Place} (entry : Entry)
    (h : tree.entry? place ≠ some .directory) : tree.KeepsDirectories (tree.put place entry) := by
  refine ⟨rfl, fun other ho => ?_⟩
  rw [entry?_put_of_ne entry, ho]
  rintro rfl
  exact h ho

theorem keepsDirectories_erase {tree : Tree} {place : Place}
    (h : tree.entry? place ≠ some .directory) : tree.KeepsDirectories (tree.erase place) := by
  refine ⟨rfl, fun other ho => ?_⟩
  rw [entry?_erase_of_ne, ho]
  rintro rfl
  exact h ho

theorem walk_of_keepsDirectories {tree next : Tree} (h : tree.KeepsDirectories next)
    {names : List String} {place found : Place} (hw : tree.walk place names = .ok found) :
    next.walk place names = .ok found := by
  induction names generalizing place with
  | nil => exact hw
  | cons name rest ih =>
    rw [walk] at hw ⊢
    rcases he : tree.entry? place with _ | ⟨_ | text⟩
    · simp [he] at hw
    · simp only [he, h.2 place he] at hw ⊢
      by_cases hdot : name = "."
      · rw [if_pos hdot] at hw ⊢
        exact ih hw
      · rw [if_neg hdot] at hw ⊢
        by_cases hup : name = ".."
        · rw [if_pos hup] at hw ⊢
          exact ih hw
        · rw [if_neg hup] at hw ⊢
          by_cases hu : isUsableName name = true
          · rw [if_pos hu] at hw ⊢
            exact ih hw
          · simp [hu] at hw
    · simp [he] at hw

theorem locate_of_keepsDirectories {tree next : Tree} (h : tree.KeepsDirectories next)
    {path : Path} {place : Place} (hl : tree.locate path = .ok place) :
    next.locate path = .ok place := by
  rw [locate] at hl ⊢
  by_cases he : path.text = ""
  · simp [he] at hl
  · rw [if_neg he] at hl ⊢
    by_cases hu : isUsablePath path = true
    · simp only [hu, Bool.not_true, Bool.false_eq_true, ↓reduceIte, h.1] at hl ⊢
      exact walk_of_keepsDirectories h hl
    · simp [hu] at hl

/-- What a slot for a file promises. -/
theorem fileSlot?_eq_some {tree : Tree} {path : Path} {place : Place}
    (h : tree.fileSlot? path = some place) :
    tree.locate path = .ok place ∧ endsAsDirectory path = false ∧ place ≠ [] ∧
      tree.entry? place ≠ some .directory := by
  rw [fileSlot?] at h
  rcases hl : tree.locate path with obstacle | found
  · simp [hl] at h
  · simp only [hl, Option.ite_none_left_eq_some, Bool.or_eq_true, not_or, Option.some.injEq] at h
    obtain ⟨⟨⟨hend, hdir⟩, _⟩, rfl⟩ := h
    have hdir : tree.entry? found ≠ some .directory := by simpa using hdir
    refine ⟨rfl, by simpa using hend, ?_, hdir⟩
    rintro rfl
    exact hdir rfl

/-- A file put at the slot of a path is read from the path, if the way there stayed. -/
theorem read_put {tree next : Tree} (h : tree.KeepsDirectories next) {path : Path} {place : Place}
    (hs : tree.fileSlot? path = some place) (hn : next.entry? place ≠ some .directory)
    (text : String) : (next.put place (.file text)).read path = some text := by
  obtain ⟨hl, hend, hne, _⟩ := fileSlot?_eq_some hs
  have hlocate := locate_of_keepsDirectories (h.trans (keepsDirectories_put (.file text) hn)) hl
  simp [read, at?, hlocate, entry?_put_self, hne, hend]

theorem read_write {tree next : Tree} {path : Path} {text : String}
    (h : tree.write path text = (true, next)) : next.read path = some text := by
  rw [write] at h
  rcases hs : tree.fileSlot? path with _ | place
  · simp [hs] at h
  · obtain rfl : tree.put place (.file text) = next := by simpa [hs] using h
    exact read_put ⟨rfl, fun _ hp => hp⟩ hs (fileSlot?_eq_some hs).2.2.2 text

theorem read_rename {tree next : Tree} {source destination : Path}
    (h : tree.rename source destination = (true, next)) :
    next.read destination = tree.read source := by
  rw [rename] at h
  rcases ht : tree.read source with _ | text
  · simp [ht] at h
  rcases ho : tree.fileSlot? source with _ | old
  · simp [ht, ho] at h
  rcases hw : tree.fileSlot? destination with _ | new
  · simp [ht, ho, hw] at h
  · obtain rfl : (tree.erase old).put new (.file text) = next := by simpa [ht, ho, hw] using h
    have hold := (fileSlot?_eq_some ho).2.2.2
    obtain ⟨_, _, hne, hnew⟩ := fileSlot?_eq_some hw
    refine read_put (keepsDirectories_erase hold) hw ?_ text
    by_cases he : new = old
    · simp [← he, entry?_erase_self hne]
    · rw [entry?_erase_of_ne he]
      exact hnew

end Tree
end StyleFamily
