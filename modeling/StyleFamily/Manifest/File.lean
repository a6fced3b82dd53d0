import StyleFamily.Files.Sink
import StyleFamily.Manifest.Scan
import StyleFamily.Manifest.Validation

/-!
# Manifest files

A manifest together with the file it was read from. Its output directory is seen from the directory
of that file.
-/
namespace StyleFamily

structure ManifestFile where
  path : Path
  content : String
  manifest : Manifest

namespace ManifestFile

/-- The manifest file at a path with the text that was read there, if any was. -/
def ofText (path : Path) : Option String → Except ManifestError ManifestFile
  | none => .error (.unreadable path)
  | some content => return ⟨path, content, ← Manifest.parse content path.text⟩

/-- Reads and checks the manifest at a path. -/
def read [Monad m] (files : FileAccess m) (path : Path) : m (Except ManifestError ManifestFile) :=
  ofText path <$> files.read path

/-- The output directory, resolved against that of the file unless it is absolute. -/
def outputDirectory (file : ManifestFile) : Path :=
  let directory := file.manifest.output.directory
  if directory.isAbsolute then directory
  else match file.path.parent? with
    | some parent => parent.join directory
    | none => directory

/-- Where units of the manifest go; another directory replaces the one of the manifest. -/
def target (file : ManifestFile) (instead : Option Path) : Target :=
  ⟨file.manifest.output.package, instead.getD file.outputDirectory⟩

end ManifestFile
end StyleFamily
