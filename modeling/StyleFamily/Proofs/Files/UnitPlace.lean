import StyleFamily.Proofs.Files.Confinement
import StyleFamily.Proofs.Files.Memory
import StyleFamily.Proofs.Files.Placement
import StyleFamily.Proofs.Files.UnitPath
import StyleFamily.Proofs.Lint.Acceptance

/-!
# The place of a unit

A unit stands strictly below the output directory: at one plain directory for each segment of its
package, and there under the name of its component. Main statement: units with another package or
another component's name stand elsewhere, so that handing one over leaves the files of all others
as they are.
-/
namespace StyleFamily

theorem IsPlain.components {name : String} (h : IsPlain name) :
    (⟨name⟩ : Path).components = ([], [name.toList]) := by
  have hdot : name.toList ≠ ['.'] := fun he => h.dot (String.toList_inj.mp he)
  have hstart : Path.startOf [name.toList] = [] := by
    unfold Path.startOf
    split <;> simp_all
  rw [Path.components_eq, h.pieces_eq, Path.meaning, hstart]
  simp [h.notIdle]

section
variable {names : List String} (hp : ∀ name ∈ names, IsPlain name)
include hp

/-- Each plain name adds one component. -/
theorem Path.components_below (path : Path) :
    (path.below names).components =
      (path.components.1, path.components.2 ++ names.map String.toList) := by
  refine below_induction hp (by simp) fun names name hn ih => ?_
  rw [below_snoc, components_join, ih, hn.components, List.map_append, List.map_singleton,
    ← List.append_assoc]
  by_cases hempty : (path.components.1, path.components.2 ++ names.map String.toList) = ([], [])
  · obtain ⟨hstart, hnames⟩ := Prod.mk.inj hempty
    rw [hstart, hnames, descend_empty]
    rfl
  · exact descend_relative (by simp) hempty

namespace Tree

/-- Plain names lead down. -/
theorem walk_plain {tree : Tree} {place last : Place} (h : tree.walk place names = .ok last) :
    last = place ++ names := by
  induction names generalizing place with
  | nil => simpa [walk] using h.symm
  | cons name rest ih =>
    obtain ⟨hn, hrest⟩ := List.forall_mem_cons.mp hp
    rw [walk] at h
    split at h
    · simp at h
    · simp at h
    · rw [if_neg hn.dot, if_neg hn.up] at h
      split at h
      · rw [ih hrest h, List.append_assoc, List.singleton_append]
      · simp at h

/-- A path that plain names were joined to leads to these names below where it led before. -/
theorem locate_below {tree : Tree} {path : Path} {place : Place}
    (h : tree.locate (path.below names) = .ok place) :
    ∃ base, tree.reach path = .ok base ∧ place = base ++ names := by
  have hwalk := walk_of_locate h
  rw [Path.isAbsolute_below hp, Path.namesOf_below hp, walk_append] at hwalk
  rcases hr : tree.reach path with obstacle | base
  · rw [reach] at hr
    rw [hr] at hwalk
    simp [Except.bind] at hwalk
  · rw [reach] at hr
    rw [hr] at hwalk
    exact ⟨base, rfl, walk_plain hp hwalk⟩

end Tree
end

/-- Below one path, different names lead to different places. -/
theorem Tree.locate_below_ne {names others : List String} (hn : ∀ name ∈ names, IsPlain name)
    (ho : ∀ name ∈ others, IsPlain name) (hne : names ≠ others) {tree : Tree} {path : Path}
    {place : Place} (h : tree.locate (path.below names) = .ok place) :
    tree.locate (path.below others) ≠ .ok place := by
  intro hother
  obtain ⟨base, hbase, hplace⟩ := locate_below hn h
  obtain ⟨base', hbase', hplace'⟩ := locate_below ho hother
  obtain rfl : base = base' := Except.ok.inj (hbase.symm.trans hbase')
  exact hne (List.append_cancel_left (hplace.symm.trans hplace'))

/-- A file is read at its place. -/
theorem Tree.read_eq_some {tree : Tree} {path : Path} {text : String} :
    tree.read path = some text ↔ endsAsDirectory path = false ∧
      ∃ place, tree.locate path = .ok place ∧ tree.file? place = some text := by
  rw [read, at?]
  rcases tree.locate path with obstacle | place
  · simp
  · rcases he : tree.entry? place with _ | _ | held
    · simp [file?, he]
    · simp [file?, he]
    · cases hd : endsAsDirectory path <;> simp [file?, he]

/-- A request for the unit of a component whose name the lint accepts, in a valid package, below a
directory. -/
structure ComponentRequest (directory : Path) (name package : String)
    (request : SourceUnit × Target) : Prop where
  unit : ∃ schema : Schema, schema.name = name ∧
    (Lint.componentName.check schema).any Diagnostic.isError = false ∧
      request.1 = Language.kotlin.unit (assemble schema) package
  package : packageFault? package = none
  directory : request.2.outputDirectory = directory

/-- A path that leads from a directory down to some names, in spelling, by its components and in
every tree. -/
structure Path.StrictlyBelow (directory : Path) (names : List String) (path : Path) : Prop where
  nonempty : names ≠ []
  plain : ∀ name ∈ names, IsPlain name ∧ (⟨name⟩ : Path).isAbsolute = false
  spelled : path = directory.below names
  components : path.components =
    (directory.components.1, directory.components.2 ++ names.map String.toList)
  located : ∀ (tree : Tree) (place : Place), tree.locate path = .ok place →
    ∃ base, tree.reach directory = .ok base ∧ place = base ++ names

/-- The directories of a package and the file of a component in it. -/
def unitNames (name package : String) : List String :=
  Text.splitAt '.' package ++ [name ++ "Style.kt"]

theorem unitNames_inj {name package name' package' : String} :
    unitNames name package = unitNames name' package' ↔ package = package' ∧ name = name' := by
  constructor
  · intro h
    obtain ⟨hsegments, hfile⟩ := List.append_inj' h rfl
    refine ⟨?_, ?_⟩
    · rw [← intercalate_splitAt package, hsegments, intercalate_splitAt]
    · have hnames := congrArg String.toList (List.singleton_inj.mp hfile)
      rw [String.toList_append, String.toList_append] at hnames
      exact String.toList_inj.mp (List.append_cancel_right hnames)
  · rintro ⟨rfl, rfl⟩
    rfl

namespace ComponentRequest
variable {directory : Path} {name package : String} {request : SourceUnit × Target}
  (h : ComponentRequest directory name package request)
include h

theorem isWellNamed : request.1.IsWellNamed := by
  obtain ⟨schema, _, hlint, hunit⟩ := h.unit
  have hname : isIdentifier schema.name = true := by
    have hcount := any_isError_eq_false.mp hlint
    rw [Lint.componentName, errorCount_check, errorCount_componentName] at hcount
    by_contra hnot
    simp [hnot] at hcount
  rw [hunit]
  exact SourceUnit.isWellNamed_kotlin hname h.package

theorem names_eq : request.1.names = unitNames name package := by
  obtain ⟨schema, hschema, _, hunit⟩ := h.unit
  have hsegments : ∀ segment ∈ Text.splitAt '.' package, segment ≠ "" := fun segment hs =>
    (isPlain_of_isIdentifier (isIdentifier_of_package h.package segment hs)).nonempty
  have hall : (Text.splitAt '.' package).filter (· ≠ "") = Text.splitAt '.' package :=
    List.filter_eq_self.mpr fun segment hs => by simpa using hsegments segment hs
  have hfile : (schema.name ++ "Style") ++ "." ++ "kt" = schema.name ++ "Style.kt" := by
    rw [String.append_assoc, String.append_assoc]
    rfl
  rw [hunit, SourceUnit.names, SourceUnit.directories]
  show (Text.splitAt '.' package).filter (· ≠ "") ++ [schema.name ++ "Style" ++ "." ++ "kt"] = _
  rw [hall, hfile, hschema]
  rfl

theorem pathOf_eq : MemoryStore.pathOf request = directory.below (unitNames name package) := by
  rw [MemoryStore.pathOf, SourceUnit.pathOf_below h.isWellNamed, h.directory, h.names_eq]

theorem isPlain {segment : String} (hs : segment ∈ unitNames name package) : IsPlain segment :=
  SourceUnit.isPlain_of_mem_names h.isWellNamed (h.names_eq ▸ hs)

theorem strictlyBelow :
    directory.StrictlyBelow (unitNames name package) (MemoryStore.pathOf request) where
  nonempty := by simp [unitNames]
  plain segment hs := ⟨h.isPlain hs, (h.isPlain hs).relative⟩
  spelled := h.pathOf_eq
  components := by
    rw [h.pathOf_eq]
    exact Path.components_below (fun _ hs => h.isPlain hs) directory
  located := by
    intro tree place hl
    rw [h.pathOf_eq] at hl
    exact Tree.locate_below (fun _ hs => h.isPlain hs) hl

theorem same_iff {name' package' : String} {other : SourceUnit × Target}
    (ho : ComponentRequest directory name' package' other) :
    (MemoryStore.pathOf request).same (MemoryStore.pathOf other) = true ↔
      package = package' ∧ name = name' := by
  rw [h.pathOf_eq, ho.pathOf_eq, Path.same_below (fun _ hs => h.isPlain hs)
    (fun _ hs => ho.isPlain hs), unitNames_inj]

/-- The draft of a unit stands beside it, under a name that no unit has. -/
theorem draft_eq : ∃ names, (MemoryStore.pathOf request).draft = directory.below names ∧
    (∀ segment ∈ names, IsPlain segment) ∧
    ∀ {name' package' : String} {other : SourceUnit × Target},
      ComponentRequest directory name' package' other → unitNames name' package' ≠ names := by
  have hnamed := h.isWellNamed
  have hfile := SourceUnit.isPlain_fileName hnamed
  refine ⟨request.1.directories ++ [request.1.fileName ++ ".tmp"], ?_, ?_, ?_⟩
  · rw [MemoryStore.pathOf, SourceUnit.pathOf_join hnamed, Path.draft_join hfile, h.directory,
      Path.below_snoc]
  · intro segment hs
    rcases List.mem_append.mp hs with hd | hf
    · exact SourceUnit.isPlain_of_mem_directories hnamed hd
    · rw [List.mem_singleton.mp hf]
      exact hfile.draft
  · intro name' package' other ho he
    rw [← ho.names_eq] at he
    obtain ⟨_, hlast⟩ := List.append_inj' he rfl
    exact SourceUnit.fileName_ne_draft ho.isWellNamed (List.singleton_inj.mp hlast)

end ComponentRequest

section
variable {σ : Type} {files : FileAccess (StateM σ)} {view : σ → Tree} (hf : files.ActsOn view)
include hf

variable {directory : Path} {name package : String} {request : SourceUnit × Target}
  (hr : ComponentRequest directory name package request)
include hr

/-- Another unit leaves the file of a unit as it is. -/
theorem read_accept_other {name' package' : String} {other : SourceUnit × Target}
    (ho : ComponentRequest directory name' package' other)
    (hne : ¬(package = package' ∧ name = name')) {s last : σ} {answer : Except SinkError Receipt}
    (h : ((Sink.directory files).accept other.1 other.2).run s = (answer, last)) {text : String}
    (ht : (view s).read (MemoryStore.pathOf request) = some text) :
    (view last).read (MemoryStore.pathOf request) = some text := by
  have hconfined := accept_confines hf h
  obtain ⟨hends, place, hplace, hfile⟩ := Tree.read_eq_some.mp ht
  have hlast := Tree.locate_of_keepsDirectories hconfined.keeps hplace
  refine Tree.read_eq_some.mpr ⟨hends, place, hlast, ?_⟩
  rw [hr.pathOf_eq] at hlast
  have hplain : ∀ segment ∈ unitNames name package, IsPlain segment := fun _ hs => hr.isPlain hs
  rw [hconfined.same place ?_ ?_, hfile]
  · show (view last).locate (MemoryStore.pathOf other) ≠ _
    rw [ho.pathOf_eq]
    exact Tree.locate_below_ne hplain (fun _ hs => ho.isPlain hs)
      (fun he => hne (unitNames_inj.mp he)) hlast
  · obtain ⟨names, hdraft, hnames, hapart⟩ := ho.draft_eq
    show (view last).locate (MemoryStore.pathOf other).draft ≠ _
    rw [hdraft]
    exact Tree.locate_below_ne hplain hnames (hapart hr) hlast

/-- However many other units are handed over, and whatever becomes of them. -/
theorem read_serve_others {requests : List (SourceUnit × Target)}
    (ho : ∀ other ∈ requests, ∃ name' package', ComponentRequest directory name' package' other ∧
      ¬(package = package' ∧ name = name')) {s last : σ} {answers : List (Except SinkError Receipt)}
    (h : ((Sink.directory files).serve requests).run s = (answers, last)) {text : String}
    (ht : (view s).read (MemoryStore.pathOf request) = some text) :
    (view last).read (MemoryStore.pathOf request) = some text := by
  induction requests generalizing s answers with
  | nil =>
    obtain ⟨_, rfl⟩ := Prod.mk.inj h
    exact ht
  | cons other rest ih =>
    obtain ⟨⟨_, _, hother, hne⟩, hrest⟩ := List.forall_mem_cons.mp ho
    rw [Sink.serve, List.mapM_cons] at h
    obtain ⟨answer, between, haccept, h⟩ := exists_run_of_bind h
    obtain ⟨more, next, hserve, h⟩ := exists_run_of_bind h
    obtain ⟨_, rfl⟩ := Prod.mk.inj h
    exact ih hrest hserve (read_accept_other hf hr hother hne haccept ht)

end

/-- The unit of a component stands strictly below the output directory, at one plain directory for
each segment of its package and one plain file. Units below one directory stand at the same path
only for the same package and component, and no request for another unit, be there ever so many,
takes the file of a unit away. -/
theorem component_unit_placed {directory : Path} {name package : String}
    {request : SourceUnit × Target} (h : ComponentRequest directory name package request) :
    directory.StrictlyBelow (Text.splitAt '.' package ++ [name ++ "Style.kt"])
        (MemoryStore.pathOf request) ∧
      ".".intercalate (Text.splitAt '.' package) = package ∧
      (∀ {name' package' : String} {other : SourceUnit × Target},
        ComponentRequest directory name' package' other →
          ((MemoryStore.pathOf request).same (MemoryStore.pathOf other) = true ↔
            package = package' ∧ name = name')) ∧
      ∀ {σ : Type} {files : FileAccess (StateM σ)} {view : σ → Tree}, files.ActsOn view →
        ∀ requests : List (SourceUnit × Target),
          (∀ other ∈ requests, ∃ name' package',
            ComponentRequest directory name' package' other ∧
              ¬(package = package' ∧ name = name')) →
          ∀ s text, (view s).read (MemoryStore.pathOf request) = some text →
            (view (((Sink.directory files).serve requests).run s).2).read
              (MemoryStore.pathOf request) = some text :=
  ⟨h.strictlyBelow, intercalate_splitAt package, fun ho => h.same_iff ho,
    fun hf _ ho _ _ ht => read_serve_others hf h ho rfl ht⟩

/-- The request for a component without properties. -/
def plainRequest (name package : String) : SourceUnit × Target :=
  (Language.kotlin.unit (assemble { name }) package, ⟨package, ⟨"./gen"⟩⟩)

/-- A card in a package, beside which a tab comes, and another card in a package below. -/
theorem card_unit_placed :
    ComponentRequest ⟨"./gen"⟩ "Card" "ui" (plainRequest "Card" "ui") ∧
      MemoryStore.pathOf (plainRequest "Card" "ui") = ⟨"./gen/ui/CardStyle.kt"⟩ ∧
      (MemoryStore.pathOf (plainRequest "Card" "ui")).same
        (MemoryStore.pathOf (plainRequest "Card" "ui.Card")) = false ∧
      (((Sink.directory Tree.access).serve
          [plainRequest "Card" "ui.Card", plainRequest "Tab" "ui"]).run
        { entries := [(["gen"], .directory), (["gen", "ui"], .directory),
            (["gen", "ui", "CardStyle.kt"], .file "held")] }).2.read ⟨"./gen/ui/CardStyle.kt"⟩ =
        some "held" := by
  have hrequest : ∀ name ∈ ["Card", "Tab"], ∀ package ∈ ["ui", "ui.Card"],
      ComponentRequest ⟨"./gen"⟩ name package (plainRequest name package) := by
    intro name hn package hp
    have hlint : ∀ name ∈ ["Card", "Tab"],
        (Lint.componentName.check { name }).any Diagnostic.isError = false := by decide
    have hpackage : ∀ package ∈ ["ui", "ui.Card"], packageFault? package = none := by decide
    exact ⟨⟨_, rfl, hlint name hn, rfl⟩, hpackage package hp, rfl⟩
  have hcard := hrequest "Card" (by decide) "ui" (by decide)
  have hnested := hrequest "Card" (by decide) "ui.Card" (by decide)
  have htab := hrequest "Tab" (by decide) "ui" (by decide)
  obtain ⟨hbelow, _, hsame, hkept⟩ := component_unit_placed hcard
  have hpath : MemoryStore.pathOf (plainRequest "Card" "ui") = ⟨"./gen/ui/CardStyle.kt"⟩ :=
    hbelow.spelled.trans (by decide)
  refine ⟨hcard, hpath, ?_, ?_⟩
  · rw [Bool.eq_false_iff, ne_eq, hsame hnested]
    decide
  · rw [← hpath]
    refine hkept Tree.access_actsOn _ ?_ _ _ ?_
    · simp only [List.forall_mem_cons]
      exact ⟨⟨_, _, hnested, by decide⟩, ⟨_, _, htab, by decide⟩, by simp⟩
    · rw [hpath]
      decide

end StyleFamily
