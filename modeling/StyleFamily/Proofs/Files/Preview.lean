import StyleFamily.Proofs.Files.Memory
import StyleFamily.Proofs.Files.Placement
import StyleFamily.Proofs.Files.UnitPath

/-!
# A preview in memory

Units kept in memory are answered for as if they were written below an empty output directory, and
after each of them the files below that directory are the files in memory.
-/
namespace StyleFamily

/-- Units handed over one after another. -/
def Sink.acceptAll {m : Type → Type} [Monad m] (sink : Sink m) (target : Target)
    (units : List SourceUnit) : m (List (Except SinkError Receipt)) :=
  units.mapM fun unit => sink.accept unit target

/-- A unit that is well named and whose files nothing keeps from being reached. -/
structure Target.Takes (target : Target) (unit : SourceUnit) : Prop where
  named : unit.IsWellNamed
  followable : (target.pathOf unit).draft.IsFollowable

/-- What memory holds of the units taken so far is what stands below a place. -/
structure Mirrors (target : Target) (base : Place) (taken : List SourceUnit) (store : MemoryStore)
    (tree : Tree) : Prop where
  roots : tree.Roots target.outputDirectory base
  held : ∀ unit ∈ taken, target.Takes unit ∧ store.get? (target.pathOf unit) ≠ none
  identifier : ∀ names, tree.entry? (base ++ names) = some .directory →
    ∀ name ∈ names, isIdentifier name = true
  known : ∀ names text, tree.entry? (base ++ names) = some (.file text) →
    names ∈ taken.map SourceUnit.names
  agree : ∀ unit, target.Takes unit →
    tree.file? (base ++ unit.names) = store.get? (target.pathOf unit)
  paths : store.files.map (·.1) ⊆ taken.map target.pathOf
  apart : (store.files.map (·.1)).Pairwise fun p q => p.same q = false

/-- A file is placed without a change to the files of other units. -/
theorem SourceUnit.entry?_placed {unit other : SourceUnit} (h : unit.IsWellNamed)
    (ho : other.IsWellNamed) (hne : other.names ≠ unit.names) {base : Place} {text : String}
    {tree next : Tree}
    (hp : Tree.Placed base unit.directories unit.fileName text tree next) :
    next.entry? (base ++ other.names) = tree.entry? (base ++ other.names) := by
  rcases hp.entry?_below other.names with he | he | hway | hsame
  · exact absurd he hne
  · have hname : other.fileName = unit.fileName ++ ".tmp" := by
      simpa using List.append_inj_right' he rfl
    exact absurd hname (fileName_ne_draft ho)
  · refine absurd (hway.subset ?_) (fileName_notMem_directories ho h)
    exact List.mem_append_right _ (List.mem_singleton_self _)
  · exact hsame

namespace Mirrors
variable {target : Target} {base : Place} {taken : List SourceUnit} {store : MemoryStore}
  {tree : Tree} {unit : SourceUnit} (h : Mirrors target base taken store tree)
  (hu : target.Takes unit)
include h hu

/-- No file is on the way to a unit, for the name of a file is no identifier. -/
theorem isClear : tree.IsClear base unit.directories := by
  intro front hfront
  rw [Tree.file?]
  split
  · next text he =>
    obtain ⟨other, ho, rfl⟩ := List.mem_map.mp (h.known front text he)
    refine absurd (hfront.subset ?_)
      (SourceUnit.fileName_notMem_directories (h.held other ho).1.named hu.named)
    exact List.mem_append_right _ (List.mem_singleton_self _)
  · rfl

theorem entry?_ne_directory (ending : String) :
    tree.entry? (base ++ (unit.directories ++ [unit.fileName ++ ending])) ≠ some .directory := by
  intro he
  have hname := h.identifier _ he (unit.fileName ++ ending) (by simp)
  rw [SourceUnit.isIdentifier_fileName hu.named ending] at hname
  exact absurd hname (by decide)

theorem read_pathOf : tree.read (target.pathOf unit) = store.get? (target.pathOf unit) := by
  have hfollow := hu.followable
  rw [← h.agree unit hu]
  rw [SourceUnit.pathOf_join hu.named] at hfollow ⊢
  have hplain := SourceUnit.isPlain_fileName hu.named
  exact h.roots.read_below (fun name hm => SourceUnit.isPlain_of_mem_directories hu.named hm) hplain
    (hfollow.of_draft hplain) (h.isClear hu)

theorem draft_free :
    tree.entry? (base ++ (unit.directories ++ [unit.fileName ++ ".tmp"])) = none := by
  rcases he : tree.entry? (base ++ (unit.directories ++ [unit.fileName ++ ".tmp"]))
    with _ | _ | text
  · rfl
  · exact absurd he (h.entry?_ne_directory hu ".tmp")
  · obtain ⟨other, ho, hnames⟩ := List.mem_map.mp (h.known _ text he)
    have hname : other.fileName = unit.fileName ++ ".tmp" := by
      simpa using List.append_inj_right' hnames rfl
    exact absurd hname (SourceUnit.fileName_ne_draft (h.held other ho).1.named)

/-- A unit that stands there already changes nothing. -/
theorem unchanged (hsome : store.get? (target.pathOf unit) ≠ none) :
    Mirrors target base (taken ++ [unit]) store tree where
  roots := h.roots
  held := by
    intro other ho
    rcases List.mem_append.mp ho with ho | ho
    · exact h.held other ho
    · obtain rfl := List.mem_singleton.mp ho
      exact ⟨hu, hsome⟩
  identifier := h.identifier
  known names text he := by
    rw [List.map_append]
    exact List.mem_append_left _ (h.known names text he)
  agree := h.agree
  paths := by
    rw [List.map_append]
    exact List.subset_append_of_subset_left _ h.paths
  apart := h.apart

section
variable {next : Tree} {text : String}
  (hp : Tree.Placed base unit.directories unit.fileName text tree next)
include hp

theorem written : Mirrors target base (taken ++ [unit])
    ⟨MemoryStore.set (target.pathOf unit) text store.files⟩ next where
  roots := h.roots.of_placed hp
  held := by
    intro other ho
    rw [MemoryStore.get?_set]
    rcases List.mem_append.mp ho with ho | ho
    · obtain ⟨htakes, hsome⟩ := h.held other ho
      refine ⟨htakes, ?_⟩
      split
      · simp
      · exact hsome
    · obtain rfl := List.mem_singleton.mp ho
      exact ⟨hu, by simp [Path.same_refl]⟩
  identifier := by
    intro names he
    rcases hp.entry?_below names with rfl | rfl | hway | hsame
    · simp [hp.file] at he
    · simp [hp.draft] at he
    · exact fun name hm => SourceUnit.isIdentifier_of_mem hu.named (hway.subset hm)
    · exact h.identifier names (hsame ▸ he)
  known := by
    intro names shown he
    rw [List.map_append]
    rcases hp.entry?_below names with rfl | rfl | hway | hsame
    · exact List.mem_append_right _ (List.mem_singleton_self _)
    · simp [hp.draft] at he
    · simp [hp.on hway] at he
    · exact List.mem_append_left _ (h.known names shown (hsame ▸ he))
  agree := by
    intro other ho
    rw [MemoryStore.get?_set]
    by_cases hnames : other.names = unit.names
    · rw [if_pos ((SourceUnit.pathOf_same hu.named target ho.named).mpr hnames.symm), hnames,
        Tree.file?, SourceUnit.names, hp.file]
    · rw [if_neg fun hs => hnames ((SourceUnit.pathOf_same hu.named target ho.named).mp hs).symm,
        ← h.agree other ho, Tree.file?, Tree.file?,
        SourceUnit.entry?_placed hu.named ho.named hnames hp]
  paths := by
    rw [List.map_append, MemoryStore.paths_set]
    split
    · exact List.subset_append_of_subset_left _ h.paths
    · exact List.append_subset.mpr ⟨List.subset_append_of_subset_left _ h.paths,
        List.subset_append_right _ _⟩
  apart := MemoryStore.apart_set _ text h.apart

end

/-- The unit is written below the directory as it is set in memory. -/
theorem replace_pathOf (text : String) :
    ∃ next, (Tree.access.replace (target.pathOf unit) text).run tree = (true, next) ∧
      Tree.Placed base unit.directories unit.fileName text tree next := by
  have hfollow := hu.followable
  have hfile := h.entry?_ne_directory hu ""
  rw [String.append_empty] at hfile
  rw [SourceUnit.pathOf_join hu.named] at hfollow ⊢
  exact h.roots.replace_below
    (fun name hm => SourceUnit.isPlain_of_mem_directories hu.named hm)
    (SourceUnit.isPlain_fileName hu.named) (SourceUnit.directories_ne_nil hu.named) hfollow
    (h.isClear hu) hfile (h.entry?_ne_directory hu ".tmp") text

/-- Both sinks take a unit with the same answer. -/
theorem accept : ∃ receipt store' next,
    (Sink.memory.accept unit target).run store = (.ok receipt, store') ∧
    ((Sink.directory Tree.access).accept unit target).run tree = (.ok receipt, next) ∧
    Mirrors target base (taken ++ [unit]) store' next := by
  have hread : (Tree.access.read (target.pathOf unit)).run tree =
      (store.get? (target.pathOf unit), tree) :=
    congrArg (·, tree) (h.read_pathOf hu)
  have hmemory : (Sink.memory.accept unit target).run store =
      (.ok (store.accept unit target).1, (store.accept unit target).2) := rfl
  by_cases hsame : store.get? (target.pathOf unit) = some unit.content
  · refine ⟨⟨target.pathOf unit, .unchanged⟩, store, tree, ?_, ?_, h.unchanged hu (by simp [hsame])⟩
    · rw [hmemory, MemoryStore.accept, if_pos hsame]
    · refine (run_bind_of_run hread).trans ?_
      rw [if_pos (by simp [hsame])]
      rfl
  · obtain ⟨next, hreplace, hplaced⟩ := h.replace_pathOf hu unit.content
    refine ⟨⟨target.pathOf unit, .written⟩, _, next, ?_, ?_, h.written hu hplaced⟩
    · rw [hmemory, MemoryStore.accept, if_neg hsame]
    · refine (run_bind_of_run hread).trans ?_
      rw [if_neg (by simpa using hsame)]
      refine (run_bind_of_run hreplace).trans ?_
      rfl

omit hu in
theorem run {units : List SourceUnit} (hu : ∀ unit ∈ units, target.Takes unit) :
    ∃ (receipts : List Receipt) (store' : MemoryStore) (next : Tree),
      (Sink.memory.acceptAll target units).run store = (receipts.map .ok, store') ∧
      ((Sink.directory Tree.access).acceptAll target units).run tree = (receipts.map .ok, next) ∧
      Mirrors target base (taken ++ units) store' next := by
  induction units generalizing taken store tree with
  | nil => exact ⟨[], store, tree, rfl, rfl, by rwa [List.append_nil]⟩
  | cons unit rest ih =>
    obtain ⟨receipt, store', next, hmemory, hdirectory, hnext⟩ := h.accept (hu unit (by simp))
    obtain ⟨receipts, store'', last, hmemories, hdirectories, hlast⟩ :=
      ih hnext fun other ho => hu other (List.mem_cons_of_mem _ ho)
    refine ⟨receipt :: receipts, store'', last, ?_, ?_, by rwa [List.append_assoc] at hlast⟩
    · rw [Sink.acceptAll, List.mapM_cons]
      exact (run_bind_of_run hmemory).trans (run_bind_of_run hmemories)
    · rw [Sink.acceptAll, List.mapM_cons]
      exact (run_bind_of_run hdirectory).trans (run_bind_of_run hdirectories)

end Mirrors

namespace Tree

/-- A path leads to a directory with nothing in it. -/
structure IsEmptyAt (tree : Tree) (path : Path) (base : Place) : Prop where
  reach : tree.reach path = .ok base
  directory : tree.entry? base = some .directory
  empty : ∀ names, names ≠ [] → tree.entry? (base ++ names) = none

/-- The regular files below a place are the listed ones, each at a place of its own. -/
structure HoldsExactly (tree : Tree) (base : Place) (files : List (Path × String)) : Prop where
  listed : ∀ file ∈ files, tree.read file.1 = some file.2 ∧
    ∃ names, tree.locate file.1 = .ok (base ++ names)
  apart : files.Pairwise fun a b => tree.locate a.1 ≠ tree.locate b.1
  found : ∀ names text, tree.entry? (base ++ names) = some (.file text) →
    ∃ file ∈ files, tree.locate file.1 = .ok (base ++ names) ∧ file.2 = text

end Tree

theorem mirrors_empty {target : Target} {base : Place} {tree : Tree}
    (h : tree.IsEmptyAt target.outputDirectory base) : Mirrors target base [] {} tree where
  roots := ⟨h.reach, h.directory, fun names name hsome => absurd (h.empty _ (by simp)) hsome⟩
  held := by simp
  identifier := by
    intro names he name hm
    have hne : names ≠ [] := List.ne_nil_of_mem hm
    simp [h.empty names hne] at he
  known := by
    intro names text he
    rcases names.eq_nil_or_concat with rfl | ⟨_, _, rfl⟩
    · rw [List.append_nil, h.directory] at he
      simp at he
    · rw [h.empty _ (by simp)] at he
      simp at he
  agree := by
    intro unit _
    rw [Tree.file?, h.empty _ (by simp [SourceUnit.names])]
    rfl
  paths := by simp
  apart := by simp

namespace Mirrors
variable {target : Target} {base : Place} {taken : List SourceUnit} {store : MemoryStore}
  {tree : Tree} (h : Mirrors target base taken store tree)
include h

theorem locate_pathOf {unit : SourceUnit} (hu : target.Takes unit)
    (hsome : tree.entry? (base ++ unit.names) ≠ none) :
    tree.locate (target.pathOf unit) = .ok (base ++ unit.names) := by
  have hplain := SourceUnit.isPlain_fileName hu.named
  have hdirectories : ∀ name ∈ unit.directories, IsPlain name := fun name hm =>
    SourceUnit.isPlain_of_mem_directories hu.named hm
  have hd : tree.entry? (base ++ unit.directories) = some .directory :=
    h.roots.closed unit.directories unit.fileName hsome
  have hfollow := hu.followable
  rw [SourceUnit.pathOf_join hu.named] at hfollow ⊢
  have hpath := hfollow.of_draft hplain
  have hreach := h.roots.reach_below hdirectories (hpath.of_join hplain).1 hd
  rw [Tree.locate_join hplain hpath, Tree.reach_join_of_directory hplain hpath hreach hd,
    List.append_assoc]
  rfl

theorem exists_unit {file : Path × String} (hf : file ∈ store.files) :
    ∃ unit ∈ taken, file.1 = target.pathOf unit := by
  obtain ⟨unit, hu, hpath⟩ := List.mem_map.mp (h.paths (List.mem_map_of_mem hf))
  exact ⟨unit, hu, hpath.symm⟩

theorem locate_held {unit : SourceUnit} (hu : unit ∈ taken) :
    tree.locate (target.pathOf unit) = .ok (base ++ unit.names) := by
  obtain ⟨htakes, hsome⟩ := h.held unit hu
  refine h.locate_pathOf htakes fun hnone => hsome ?_
  rw [← h.agree unit htakes, Tree.file?, hnone]

theorem at?_pathOf {unit : SourceUnit} (hu : unit ∈ taken) : ∃ text,
    store.get? (target.pathOf unit) = some text ∧
      tree.at? (target.pathOf unit) = some (.file text) ∧
      tree.at? (target.pathOf unit).draft = none := by
  obtain ⟨htakes, hsome⟩ := h.held unit hu
  obtain ⟨text, htext⟩ := Option.ne_none_iff_exists'.mp hsome
  have hfile : tree.entry? (base ++ unit.names) = some (.file text) :=
    Tree.entry?_of_file? ((h.agree unit htakes).trans htext)
  have hplain := SourceUnit.isPlain_fileName htakes.named
  have hfollow := htakes.followable
  have hdirectories : ∀ name ∈ unit.directories, IsPlain name := fun name hm =>
    SourceUnit.isPlain_of_mem_directories htakes.named hm
  have hclear := h.isClear htakes
  rw [SourceUnit.pathOf_join htakes.named] at hfollow htext ⊢
  refine ⟨text, htext, ?_, ?_⟩
  · rw [h.roots.at?_below hdirectories hplain (hfollow.of_draft hplain) hclear]
    exact hfile
  · rw [Path.draft_join hplain] at hfollow ⊢
    rw [h.roots.at?_below hdirectories hplain.draft hfollow hclear]
    exact h.draft_free htakes

theorem holdsExactly : tree.HoldsExactly base store.files where
  listed := by
    intro file hf
    obtain ⟨unit, hu, hpath⟩ := h.exists_unit hf
    obtain ⟨htakes, hsome⟩ := h.held unit hu
    have htext : store.get? file.1 = some file.2 := MemoryStore.get?_of_mem h.apart hf
    have hread := h.read_pathOf htakes
    refine ⟨by rw [hpath, hread, ← hpath, htext], unit.names, ?_⟩
    rw [hpath]
    exact h.locate_held hu
  apart := by
    refine (List.pairwise_map.mp h.apart).imp_of_mem fun {a b} ha hb hne hsame => ?_
    obtain ⟨unit, hu, hpath⟩ := h.exists_unit ha
    obtain ⟨other, ho, hpath'⟩ := h.exists_unit hb
    rw [hpath, hpath', h.locate_held hu, h.locate_held ho] at hsame
    have hnames : unit.names = other.names := List.append_cancel_left (Except.ok.inj hsame)
    rw [hpath, hpath', (SourceUnit.pathOf_same (h.held unit hu).1.named target
      (h.held other ho).1.named).mpr hnames] at hne
    exact absurd hne (by decide)
  found := by
    intro names text he
    obtain ⟨unit, hu, rfl⟩ := List.mem_map.mp (h.known names text he)
    obtain ⟨htakes, _⟩ := h.held unit hu
    have hget : store.get? (target.pathOf unit) = some text := by
      rw [← h.agree unit htakes, Tree.file?, he]
    obtain ⟨file, hfile, hsame, rfl⟩ := MemoryStore.mem_of_get? hget
    obtain ⟨other, ho, hpath⟩ := h.exists_unit hfile
    rw [hpath] at hsame
    have hnames := (SourceUnit.pathOf_same (h.held other ho).1.named target htakes.named).mp hsame
    exact ⟨file, hfile, by rw [hpath, h.locate_held ho, hnames], rfl⟩

end Mirrors

/-- Whichever units were taken, memory and a directory that was empty have given the same answers,
none of them an error, and the files below the directory are the files in memory. Every unit taken
is a file there, and no draft is left. -/
theorem preview_faithful {target : Target} {tree : Tree} {base : Place} {units : List SourceUnit}
    (hempty : tree.IsEmptyAt target.outputDirectory base)
    (hnamed : ∀ unit ∈ units, unit.IsWellNamed)
    (hfollow : ∀ unit ∈ units, (target.pathOf unit).draft.IsFollowable)
    {taken : List SourceUnit} (htaken : taken <+: units) :
    ∃ (receipts : List Receipt) (store : MemoryStore) (next : Tree),
      (Sink.memory.acceptAll target taken).run {} = (receipts.map .ok, store) ∧
      ((Sink.directory Tree.access).acceptAll target taken).run tree = (receipts.map .ok, next) ∧
      next.HoldsExactly base store.files ∧
      (∀ file ∈ store.files, ∃ unit ∈ taken, file.1 = target.pathOf unit) ∧
      ∀ unit ∈ taken, ∃ text, store.get? (target.pathOf unit) = some text ∧
        next.at? (target.pathOf unit) = some (.file text) ∧
        next.at? (target.pathOf unit).draft = none := by
  have htakes : ∀ unit ∈ taken, target.Takes unit := fun unit hu =>
    ⟨hnamed unit (htaken.subset hu), hfollow unit (htaken.subset hu)⟩
  obtain ⟨receipts, store, next, hmemory, hdirectory, hmirrors⟩ := (mirrors_empty hempty).run htakes
  rw [List.nil_append] at hmirrors
  exact ⟨receipts, store, next, hmemory, hdirectory, hmirrors.holdsExactly,
    fun file hf => hmirrors.exists_unit hf, fun unit hu => hmirrors.at?_pathOf hu⟩

/-- A unit that comes again and then changes, and one of its name in a package below. -/
def nestedUnits : List SourceUnit :=
  [⟨"Chip", "a", "kt", "1"⟩, ⟨"Chip", "a.b", "kt", "2"⟩, ⟨"Chip", "a", "kt", "1"⟩,
    ⟨"Chip", "a", "kt", "3"⟩]

def nestedTarget : Target := ⟨"a", ⟨"./out/"⟩⟩

def emptyOutput : Tree where
  entries := [(["out"], .directory)]

theorem nested_units_previewed :
    emptyOutput.IsEmptyAt nestedTarget.outputDirectory ["out"] ∧
      (∀ unit ∈ nestedUnits, unit.IsWellNamed) ∧
      (∀ unit ∈ nestedUnits, (nestedTarget.pathOf unit).draft.IsFollowable) ∧
      ∃ (receipts : List Receipt) (store : MemoryStore) (next : Tree),
        (Sink.memory.acceptAll nestedTarget nestedUnits).run {} = (receipts.map .ok, store) ∧
        ((Sink.directory Tree.access).acceptAll nestedTarget nestedUnits).run emptyOutput =
          (receipts.map .ok, next) ∧
        store.files = [(⟨"./out/a/Chip.kt"⟩, "3"), (⟨"./out/a/b/Chip.kt"⟩, "2")] ∧
        next.HoldsExactly ["out"] store.files := by
  have hempty : emptyOutput.IsEmptyAt nestedTarget.outputDirectory ["out"] := by
    refine ⟨by decide, by decide, fun names hne => ?_⟩
    obtain ⟨first, rest, rfl⟩ := List.exists_cons_of_ne_nil hne
    rfl
  have hnames : ∀ unit ∈ nestedUnits, isIdentifier unit.name = true ∧ unit.extension = "kt" ∧
      packageFault? unit.package = none := by decide
  have hnamed : ∀ unit ∈ nestedUnits, unit.IsWellNamed := fun unit hu =>
    ⟨(hnames unit hu).1, (hnames unit hu).2.1, (hnames unit hu).2.2⟩
  have hpaths : ∀ unit ∈ nestedUnits,
      Tree.isUsablePath (nestedTarget.pathOf unit).draft = true ∧
        ∀ name ∈ Tree.namesOf (nestedTarget.pathOf unit).draft,
          Tree.isUsableName name = true := by decide
  have hfollow : ∀ unit ∈ nestedUnits, (nestedTarget.pathOf unit).draft.IsFollowable :=
    fun unit hu => ⟨(hpaths unit hu).1, (hpaths unit hu).2⟩
  obtain ⟨receipts, store, next, hmemory, hdirectory, hholds, _, _⟩ :=
    preview_faithful hempty hnamed hfollow List.prefix_rfl
  refine ⟨hempty, hnamed, hfollow, receipts, store, next, hmemory, hdirectory, ?_, hholds⟩
  exact (congrArg (·.2.files) hmemory).symm.trans rfl

end StyleFamily
