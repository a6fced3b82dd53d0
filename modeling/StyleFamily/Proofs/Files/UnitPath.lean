import StyleFamily.Kotlin.Unit
import StyleFamily.Proofs.Files.Spelling
import StyleFamily.Proofs.Text.Characters

/-!
# The paths of units

A unit that is named after a declaration stands below the directories of its package. What keeps
units, drafts and directories apart is a dot: it stands in the name of every file and in no
identifier. Two units of one target are placed at the same path only under the same names.
-/
namespace StyleFamily

theorem isPlain_of_isIdentifier {name : String} (h : isIdentifier name = true) : IsPlain name := by
  have hne : ∀ {text}, isIdentifier text = false → name ≠ text := by
    rintro _ htext rfl
    rw [htext] at h
    exact absurd h (by decide)
  exact ⟨hne (by decide), hne (by decide), hne (by decide), notMem_of_isIdentifier h (by decide)⟩

namespace SourceUnit

/-- A unit as the emission names it: after a declaration, in a valid package. -/
structure IsWellNamed (unit : SourceUnit) : Prop where
  name : isIdentifier unit.name = true
  extension : unit.extension = "kt"
  package : packageFault? unit.package = none

/-- What is emitted for a component is a unit of this kind. -/
theorem isWellNamed_kotlin {schema : Schema} {package : String}
    (hname : isIdentifier schema.name = true) (hpackage : packageFault? package = none) :
    (Language.kotlin.unit (assemble schema) package).IsWellNamed where
  name := by
    have hending : "Style".toList.all isNamePart = true := by decide
    exact isIdentifier_append hname hending
  extension := rfl
  package := hpackage

/-- The directories of a unit's package. -/
def directories (unit : SourceUnit) : List String :=
  (Text.splitAt '.' unit.package).filter (· ≠ "")

/-- The names on the way to a unit, below the output directory. -/
def names (unit : SourceUnit) : List String := unit.directories ++ [unit.fileName]

section
variable {unit other : SourceUnit} (h : unit.IsWellNamed)
include h

theorem isIdentifier_of_mem {name : String} (hm : name ∈ unit.directories) :
    isIdentifier name = true :=
  isIdentifier_of_package h.package name (List.mem_of_mem_filter hm)

theorem isPlain_of_mem_directories {name : String} (hm : name ∈ unit.directories) : IsPlain name :=
  isPlain_of_isIdentifier (isIdentifier_of_mem h hm)

theorem directories_ne_nil : unit.directories ≠ [] := by
  have hall : unit.directories = Text.splitAt '.' unit.package := by
    refine List.filter_eq_self.mpr fun name hm => ?_
    simpa using (isPlain_of_isIdentifier (isIdentifier_of_package h.package name hm)).nonempty
  obtain ⟨init, last, hp⟩ := exists_pieces '.' unit.package.toList
  rw [hall, Text.splitAt, hp]
  simp

theorem toList_fileName : unit.fileName.toList = unit.name.toList ++ ['.', 'k', 't'] := by
  rw [fileName, h.extension, String.toList_append, String.toList_append, List.append_assoc]
  rfl

theorem isPlain_fileName : IsPlain unit.fileName := by
  have hk : 'k' ∈ unit.fileName.toList := by simp [toList_fileName h]
  have hne : ∀ {text : String}, 'k' ∉ text.toList → unit.fileName ≠ text := by
    rintro _ htext rfl
    exact htext hk
  refine ⟨hne (by decide), hne (by decide), hne (by decide), ?_⟩
  have hname : '/' ∉ unit.name.toList := notMem_of_isIdentifier h.name (by decide)
  simp [toList_fileName h, hname]

/-- Neither the file of a unit nor its draft takes the name of a directory. -/
theorem isIdentifier_fileName (ending : String) :
    isIdentifier (unit.fileName ++ ending) = false := by
  by_contra hname
  refine notMem_of_isIdentifier (Bool.not_eq_false _ ▸ hname) (c := '.') (by decide) ?_
  simp [toList_fileName h]

theorem fileName_notMem_directories (ho : other.IsWellNamed) :
    unit.fileName ∉ other.directories := by
  intro hm
  have hname := isIdentifier_fileName h ""
  rw [String.append_empty, isIdentifier_of_mem ho hm] at hname
  exact absurd hname (by decide)

theorem fileName_ne_draft : unit.fileName ≠ other.fileName ++ ".tmp" := by
  intro he
  have hlast := congrArg (·.toList.getLast?) he
  simp [toList_fileName h] at hlast

end

section
variable {unit : SourceUnit} (h : unit.IsWellNamed) (target : Target)
include h

theorem isPlain_of_mem_names {name : String} (hm : name ∈ unit.names) : IsPlain name := by
  rcases List.mem_append.mp hm with hd | hf
  · exact isPlain_of_mem_directories h hd
  · rw [List.mem_singleton.mp hf]
    exact isPlain_fileName h

theorem pathOf_below : target.pathOf unit = target.outputDirectory.below unit.names := by
  have hrelative : unit.relativePath = (⟨""⟩ : Path).below unit.names := by
    rw [names, Path.below_snoc]
    rfl
  rw [Target.pathOf, hrelative]
  exact Path.join_below (fun name hm => isPlain_of_mem_names h hm) _ (by simp [names])

theorem pathOf_join :
    target.pathOf unit = (target.outputDirectory.below unit.directories).join ⟨unit.fileName⟩ := by
  rw [pathOf_below h, names, Path.below_snoc]

theorem pathOf_same {other : SourceUnit} (ho : other.IsWellNamed) :
    (target.pathOf unit).same (target.pathOf other) = true ↔ unit.names = other.names := by
  rw [pathOf_below h, pathOf_below ho]
  exact Path.same_below (fun name hm => isPlain_of_mem_names h hm)
    (fun name hm => isPlain_of_mem_names ho hm) _

end

end SourceUnit
end StyleFamily
