import StyleFamily.Proofs.Files.Equality
import StyleFamily.Proofs.Model.Requests

/-!
# Memory as a map

Units that are kept in memory are found again under every spelling of their path. Main statement:
after any requests to an empty memory, the paths stand in the order of their first requests and
under their first spellings, each with the content that was sent to it last, and a further request
changes the entry of its own path only.
-/
namespace StyleFamily

namespace MemoryStore

theorem find?_set (path q : Path) (text : String) (files : List (Path × String)) :
    ((set path text files).find? (·.1.same q)).map (·.2) =
      if path.same q then some text else (files.find? (·.1.same q)).map (·.2) := by
  induction files with
  | nil => by_cases hq : path.same q = true <;> simp [set, hq]
  | cons file rest ih =>
    rw [set]
    by_cases hf : file.1.same path = true
    · rw [if_pos hf]
      have hcongr := Path.same_congr hf q
      by_cases hq : path.same q = true <;> simp [hcongr, hq]
    · rw [if_neg hf, List.find?_cons, List.find?_cons]
      by_cases hq : file.1.same q = true
      · have hpath : path.same q ≠ true := by
          intro hp
          rw [Path.same_comm, Path.same_congr hp] at hf
          exact hf ((Path.same_comm _ _).trans hq)
        simp [hq, hpath]
      · simp only [hq, ih]

theorem get?_set (store : MemoryStore) (path q : Path) (text : String) :
    (⟨set path text store.files⟩ : MemoryStore).get? q =
      if path.same q then some text else store.get? q :=
  find?_set path q text store.files

/-- A path that is new comes last, and one that is not keeps the spelling it came under. -/
theorem paths_set (path : Path) (text : String) (files : List (Path × String)) :
    (set path text files).map (·.1) =
      if files.any (·.1.same path) then files.map (·.1) else files.map (·.1) ++ [path] := by
  induction files with
  | nil => rfl
  | cons file rest ih =>
    rw [set, List.any_cons]
    by_cases hf : file.1.same path = true
    · simp [hf]
    · rw [if_neg hf, List.map_cons, List.map_cons, ih]
      simp only [hf, Bool.false_or]
      split <;> rfl

theorem apart_set {files : List (Path × String)} (path : Path) (text : String)
    (h : (files.map (·.1)).Pairwise fun p q => p.same q = false) :
    ((set path text files).map (·.1)).Pairwise fun p q => p.same q = false := by
  rw [paths_set]
  split
  · exact h
  · next hnew =>
    refine List.pairwise_append.mpr ⟨h, List.pairwise_singleton _ _, ?_⟩
    intro other hother last hlast
    obtain ⟨file, hfile, rfl⟩ := List.mem_map.mp hother
    rw [List.mem_singleton.mp hlast]
    simpa using fun hsame => hnew (List.any_eq_true.mpr ⟨file, hfile, hsame⟩)

/-- The entries of other paths keep their number, order, spelling and content. -/
theorem others_set (path : Path) (text : String) (files : List (Path × String)) :
    (set path text files).filter (!·.1.same path) = files.filter (!·.1.same path) := by
  induction files with
  | nil => simp [set, Path.same_refl]
  | cons file rest ih =>
    rw [set]
    by_cases hf : file.1.same path = true
    · simp [hf]
    · rw [if_neg hf, List.filter_cons, List.filter_cons, ih]

/-- Where no two spellings mean the same place, what is kept under a path is found there. -/
theorem get?_of_mem {files : List (Path × String)} {file : Path × String}
    (hd : (files.map (·.1)).Pairwise fun p q => p.same q = false) (hm : file ∈ files) :
    (⟨files⟩ : MemoryStore).get? file.1 = some file.2 := by
  rw [get?]
  induction files with
  | nil => simp at hm
  | cons first rest ih =>
    obtain ⟨hfirst, hrest⟩ := List.pairwise_cons.mp hd
    rcases List.mem_cons.mp hm with rfl | hr
    · simp [Path.same_refl]
    · have hskip : first.1.same file.1 = false := hfirst file.1 (List.mem_map_of_mem hr)
      rw [List.find?_cons_of_neg (by simp [hskip]), ih hrest hr]

theorem mem_of_get? {store : MemoryStore} {path : Path} {text : String}
    (h : store.get? path = some text) :
    ∃ file ∈ store.files, file.1.same path = true ∧ file.2 = text := by
  obtain ⟨file, hfind, htext⟩ := Option.map_eq_some_iff.mp h
  have hsame : file.1.same path = true := by simpa using List.find?_some hfind
  exact ⟨file, List.mem_of_find?_eq_some hfind, hsame, htext⟩

theorem get?_congr (store : MemoryStore) {p q : Path} (h : p.same q = true) :
    store.get? p = store.get? q := by
  have hsame : ∀ file : Path × String, file.1.same p = file.1.same q := fun file => by
    rw [Path.same_comm, Path.same_congr h, Path.same_comm]
  simp only [get?, hsame]

section
variable (store : MemoryStore) (unit : SourceUnit) (target : Target)

/-- A unit sets the content of its path, be it new or not. -/
theorem get?_accept (path : Path) :
    (store.accept unit target).2.get? path =
      if (target.pathOf unit).same path then some unit.content else store.get? path := by
  rw [accept]
  split
  · next hheld =>
    split
    · next hsame => rw [← hheld, get?_congr store hsame]
    · rfl
  · exact get?_set store _ path unit.content

theorem paths_accept :
    (store.accept unit target).2.files.map (·.1) =
      if store.files.any (·.1.same (target.pathOf unit)) then store.files.map (·.1)
      else store.files.map (·.1) ++ [target.pathOf unit] := by
  rw [accept]
  split
  · next hheld =>
    obtain ⟨file, hfile, hsame, _⟩ := mem_of_get? hheld
    rw [if_pos (List.any_eq_true.mpr ⟨file, hfile, hsame⟩)]
  · exact paths_set _ _ _

theorem others_accept :
    (store.accept unit target).2.files.filter (!·.1.same (target.pathOf unit)) =
      store.files.filter (!·.1.same (target.pathOf unit)) := by
  rw [accept]
  split
  · rfl
  · exact others_set _ _ _

theorem apart_accept (h : (store.files.map (·.1)).Pairwise fun p q => p.same q = false) :
    ((store.accept unit target).2.files.map (·.1)).Pairwise fun p q => p.same q = false := by
  rw [accept]
  split
  · exact h
  · exact apart_set _ _ h

end

end MemoryStore

/-- Units handed over one after another, each with its own target. -/
def Sink.serve {m : Type → Type} [Monad m] (sink : Sink m)
    (requests : List (SourceUnit × Target)) : m (List (Except SinkError Receipt)) :=
  requests.mapM fun request => sink.accept request.1 request.2

namespace MemoryStore

/-- The answers to requests to an empty memory. -/
def answersTo (requests : List (SourceUnit × Target)) : List (Except SinkError Receipt) :=
  ((Sink.memory.serve requests).run {}).1

/-- What an empty memory holds after requests. -/
def after (requests : List (SourceUnit × Target)) : MemoryStore :=
  ((Sink.memory.serve requests).run {}).2

/-- The path a request is for. -/
def pathOf (request : SourceUnit × Target) : Path := request.2.pathOf request.1

/-- The content that was sent to a path last. -/
def lastContent? (requests : List (SourceUnit × Target)) (path : Path) : Option String :=
  ((requests.filter fun request => (pathOf request).same path).getLast?).map (·.1.content)

theorem after_snoc (requests : List (SourceUnit × Target)) (request : SourceUnit × Target) :
    after (requests ++ [request]) = ((after requests).accept request.1 request.2).2 :=
  Requests.reached_snoc _ _ requests request

theorem length_answersTo (requests : List (SourceUnit × Target)) :
    (answersTo requests).length = requests.length :=
  Requests.length_answers _ _ requests

theorem answersTo_getElem? (requests : List (SourceUnit × Target))
    (request : SourceUnit × Target) (later : List (SourceUnit × Target)) :
    (answersTo (requests ++ request :: later))[requests.length]? =
      some (.ok ((after requests).accept request.1 request.2).1) :=
  Requests.answer_eq _ _ requests request later

/-- A path that is new is a spelling of its own. -/
theorem firstSpellings_snoc (paths : List Path) (path : Path) :
    (paths ++ [path]).eraseDupsBy Path.same =
      if (paths.eraseDupsBy Path.same).any (·.same path) then paths.eraseDupsBy Path.same
      else paths.eraseDupsBy Path.same ++ [path] := by
  match paths with
  | [] => simp [List.eraseDupsBy_cons]
  | first :: rest =>
    have hshorter : (rest.filter (!·.same first)).length < rest.length + 1 :=
      Nat.lt_succ_of_le (List.length_filter_le _ _)
    rw [List.cons_append, List.eraseDupsBy_cons, List.eraseDupsBy_cons, List.filter_append,
      List.any_cons]
    by_cases hsame : path.same first = true
    · have hfirst : first.same path = true := by rwa [Path.same_comm]
      simp [hsame, hfirst]
    · have hfirst : first.same path = false := by
        rw [Path.same_comm]
        simpa using hsame
      have ih := firstSpellings_snoc (rest.filter fun other => other.same first = false) path
      rw [List.filter_cons_of_pos (by simpa using hsame), List.filter_nil, ih, hfirst,
        Bool.false_or]
      split <;> rfl
termination_by paths.length

/-- What is in memory after requests: a map from paths to the last contents. -/
structure Recalls (requests : List (SourceUnit × Target)) (store : MemoryStore) : Prop where
  paths : store.files.map (·.1) = (requests.map pathOf).eraseDupsBy Path.same
  apart : (store.files.map (·.1)).Pairwise fun p q => p.same q = false
  found : ∀ path, store.get? path = lastContent? requests path

theorem lastContent?_snoc (requests : List (SourceUnit × Target))
    (request : SourceUnit × Target) (path : Path) :
    lastContent? (requests ++ [request]) path =
      if (pathOf request).same path then some request.1.content
      else lastContent? requests path := by
  cases hsame : (pathOf request).same path <;> simp [lastContent?, hsame]

theorem Recalls.accept {requests : List (SourceUnit × Target)} {store : MemoryStore}
    (h : Recalls requests store) (request : SourceUnit × Target) :
    Recalls (requests ++ [request]) (store.accept request.1 request.2).2 where
  paths := by
    have hany : store.files.any (·.1.same (pathOf request)) =
        (store.files.map (·.1)).any (·.same (pathOf request)) := by
      rw [List.any_map]
      rfl
    rw [paths_accept, List.map_append, List.map_singleton, firstSpellings_snoc, ← h.paths, ← hany]
    rfl
  apart := apart_accept store _ _ h.apart
  found path := by
    rw [get?_accept, lastContent?_snoc, h.found]
    rfl

theorem recalls_after (requests : List (SourceUnit × Target)) :
    Recalls requests (after requests) := by
  induction requests using List.reverseRecOn with
  | nil => exact ⟨rfl, .nil, fun _ => rfl⟩
  | append_singleton requests request ih =>
    rw [after_snoc]
    exact ih.accept request

/-- A memory sink is a map from paths to the contents that were sent to them last. Paths are
compared by their components: one spelling becomes the other by tidying, and a unit stands at the
components of its output directory, of its package's segments and of its file name, of which an
absolute one replaces those before it. -/
theorem memory_is_map (requests : List (SourceUnit × Target)) (unit : SourceUnit)
    (target : Target) (later : List (SourceUnit × Target)) :
    Recalls requests (after requests) ∧
      (∀ file ∈ (after requests).files, lastContent? requests file.1 = some file.2) ∧
      (answersTo requests).length = requests.length ∧
      (answersTo (requests ++ (unit, target) :: later))[requests.length]? =
        some (.ok ⟨target.pathOf unit,
          if (after requests).get? (target.pathOf unit) = some unit.content then .unchanged
          else .written⟩) ∧
      (after (requests ++ [(unit, target)])).files.filter (!·.1.same (target.pathOf unit)) =
        (after requests).files.filter (!·.1.same (target.pathOf unit)) ∧
      (∀ p q : Path, p.same q = true ↔ p.Respelled q) ∧
      (target.pathOf unit).components =
        ((Text.splitAt '.' unit.package).filter (· ≠ "") ++ [unit.fileName]).foldl
          (fun here name => Path.descend here (⟨name⟩ : Path).components)
          target.outputDirectory.components := by
  have hrecalls := recalls_after requests
  refine ⟨hrecalls, fun file hfile => ?_, length_answersTo requests, ?_, ?_,
    fun _ _ => Path.same_iff_respelled, target.components_pathOf unit⟩
  · rw [← hrecalls.found]
    exact get?_of_mem hrecalls.apart hfile
  · rw [answersTo_getElem?, MemoryStore.accept]
    split <;> rfl
  · rw [after_snoc]
    exact others_accept _ _ _

/-- Two spellings of one directory: the first spelling stays, with the second content. -/
example : (after [(⟨"A", "x.y", "kt", "one"⟩, ⟨"", ⟨"out/./"⟩⟩),
    (⟨"A", "x..y", "kt", "two"⟩, ⟨"", ⟨"out//."⟩⟩)]).files =
      [(⟨"out/./x/y/A.kt"⟩, "two")] := by
  decide +kernel

end MemoryStore
end StyleFamily
