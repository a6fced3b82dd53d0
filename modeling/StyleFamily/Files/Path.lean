import StyleFamily.Text

/-!
# Paths

A path is kept exactly as it is spelled, so that joining and printing never tidy it. Two paths are
the same place when their components agree: repeated and trailing separators and a `.` that does
not come first carry no meaning, while `..` is a component of its own.
-/
namespace StyleFamily

/-- A path as it is spelled. -/
structure Path where
  text : String
deriving DecidableEq

namespace Path

def isAbsolute (path : Path) : Bool := path.text.toList.head? == some '/'

/-- `part` below `base`; an absolute part stands for itself. -/
def join (base part : Path) : Path :=
  if part.isAbsolute then part
  else if base.text.toList.getLast?.getD '/' = '/' then ⟨base.text ++ part.text⟩
  else ⟨base.text ++ "/" ++ part.text⟩

/-- A segment that names no component of its own. -/
def isIdle (segment : List Char) : Bool := segment == [] || segment == ['.']

/-- The root or the leading `.` of a path, and the segments after it. -/
def anatomy (path : Path) : List Char × List (List Char) :=
  match path.text.toList with
  | [] => ([], [])
  | '/' :: body => (['/'], Text.pieces '/' body)
  | ['.'] => (['.'], [])
  | '.' :: '/' :: body => (['.'], Text.pieces '/' ('/' :: body))
  | body => ([], Text.pieces '/' body)

/-- The root or leading `.`, and the components after it. -/
def components (path : Path) : List Char × List (List Char) :=
  (path.anatomy.1, path.anatomy.2.filter (!isIdle ·))

/-- Whether two spellings mean the same place. -/
def same (p q : Path) : Bool := p.components == q.components

/-- Segments without the idle ones at their end. -/
def withoutIdleEnd (segments : List (List Char)) : List (List Char) :=
  (segments.reverse.dropWhile isIdle).reverse

/-- The path without its last component; a root and the empty path have none to take away. -/
def parent? (path : Path) : Option Path :=
  let (start, segments) := path.anatomy
  match withoutIdleEnd segments with
  | [] => if start = ['.'] then some ⟨""⟩ else none
  | body =>
    let rest := withoutIdleEnd body.dropLast
    some ⟨String.ofList (start ++ ['/'].intercalate rest)⟩

theorem same_refl (p : Path) : p.same p = true := by simp [same]

theorem same_comm (p q : Path) : p.same q = q.same p := by
  simp only [same]; exact BEq.comm

end Path
end StyleFamily
