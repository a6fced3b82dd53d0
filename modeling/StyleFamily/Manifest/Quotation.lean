import StyleFamily.Text

/-!
# Quotations of a manifest

Where a name stands in the text of a manifest, so that an error can point at it. Positions count
bytes.
-/
namespace StyleFamily

/-- A stretch of a text. -/
structure Span where
  offset : Nat
  length : Nat
deriving DecidableEq

/-- The offset after the stretch. -/
def Span.stop (span : Span) : Nat := span.offset + span.length

namespace Quotation

/-- How many bytes characters take. -/
def byteLength (cs : List Char) : Nat := cs.foldr (fun c n => c.utf8Size + n) 0

/-- The characters from a byte offset on; none inside a character or beyond the end. -/
def dropBytes : Nat → List Char → Option (List Char)
  | 0, cs => some cs
  | _ + 1, [] => none
  | n + 1, c :: rest => if c.utf8Size ≤ n + 1 then dropBytes (n + 1 - c.utf8Size) rest else none

/-- The byte offset at which a pattern first occurs. -/
def find? (pattern : List Char) : List Char → Option Nat
  | [] => if pattern.isEmpty then some 0 else none
  | c :: rest =>
    if pattern.isPrefixOf (c :: rest) then some 0 else (find? pattern rest).map (c.utf8Size + ·)

/-- The byte offset of a name after an opening that precedes its closing quote. -/
def findAfter? (opening : String) (name text : List Char) : Option Nat :=
  (find? (opening.toList ++ name ++ ['"']) text).map (· + byteLength opening.toList)

/-- The byte offset of a name: as a quoted value with or without blanks around the sign before it,
else between quotes anywhere, else anywhere at all. -/
def findName? (name text : List Char) : Option Nat :=
  findAfter? " = \"" name text <|> findAfter? "=\"" name text <|> findAfter? "\"" name text <|>
    find? name text

/-- Where a name stands in a text at or after a byte offset. -/
def spanFrom? (text : List Char) (name : String) (start : Nat) : Option Span := do
  let rest ← dropBytes start text
  let offset ← findName? name.toList rest
  return ⟨start + offset, byteLength name.toList⟩

/-- Where a name first stands in a text. -/
def span? (text : List Char) (name : String) : Option Span := spanFrom? text name 0

/-- Where a name stands once more after a span. -/
def spanAfter? (text : List Char) (name : String) (span : Option Span) : Option Span :=
  span.bind fun first => spanFrom? text name first.stop

end Quotation
end StyleFamily
