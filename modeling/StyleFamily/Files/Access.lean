import StyleFamily.Files.Path

/-!
# Access to files

The few operations on files that the library needs, in any setting that offers them: a pure tree of
files or the files of a machine. An operation reports whether it succeeded, never why it did not.
-/
namespace StyleFamily

structure FileAccess (m : Type → Type) where
  /-- The text of a file, if it can be read. -/
  read : Path → m (Option String)
  /-- Creates a directory and every missing one above it. -/
  createDirectories : Path → m Bool
  /-- Creates a file or replaces what it holds. -/
  write : Path → String → m Bool
  /-- Moves a file, in place of a file that stands at the destination. -/
  rename : Path → Path → m Bool
  /-- Removes a file if there is one. -/
  remove : Path → m Unit

end StyleFamily
