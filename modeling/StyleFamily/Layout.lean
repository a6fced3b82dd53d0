/-!
# Layout of generated source

Source text is put together from fragments: lines, blank lines, one-line documentation and blocks.
A page takes fragments one after another and writes them at its depth, one margin per level; a
blank line never has a margin.
-/
namespace StyleFamily

/-- A piece of source that has no margin yet. -/
inductive Fragment
  | line (text : String)
  | blank
  | doc (text : String)
  /-- An opening line, a body one level deeper, and a closing line. -/
  | block (opening : String) (body : List Fragment) (closing : String)
  /-- A body one level deeper. -/
  | nested (body : List Fragment)

namespace Fragment

/-- A block between braces; the opening line ends with the first of them. -/
def braced (opening : String) (body : List Fragment) : Fragment := .block opening body "\x7d"

/-- The documentation line, if there is documentation. -/
def docs (doc : Option String) : List Fragment := (doc.map Fragment.doc).toList

/-- The groups that are not empty, with one blank line between them. -/
def separated (groups : List (List Fragment)) : List Fragment :=
  [blank].intercalate (groups.filter (!·.isEmpty))

end Fragment

/-- Source text being written: what stands so far, the margin of one level, and the level. -/
structure Page where
  margin : String
  depth : Nat := 0
  text : String := ""

namespace Page

/-- The margin of a generated file. -/
def fourSpaces : String := "    "

/-- A line with the margin of its level. -/
def pushLine (page : Page) (line : String) : Page :=
  { page with
    text := page.text ++ String.join (List.replicate page.depth page.margin) ++ line ++ "\n" }

def pushBlank (page : Page) : Page := { page with text := page.text ++ "\n" }

def deeper (page : Page) : Page := { page with depth := page.depth + 1 }
def shallower (page : Page) : Page := { page with depth := page.depth - 1 }

mutual
/-- Writes a fragment. -/
def put (page : Page) : Fragment → Page
  | .line text => page.pushLine text
  | .blank => page.pushBlank
  | .doc text => page.pushLine ("/** " ++ text ++ " */")
  | .block opening body closing =>
    (putAll (page.pushLine opening).deeper body).shallower.pushLine closing
  | .nested body => (putAll page.deeper body).shallower

/-- Writes fragments one after another. -/
def putAll (page : Page) : List Fragment → Page
  | [] => page
  | fragment :: rest => putAll (put page fragment) rest
end

end Page

/-- The text of fragments on a page of their own. -/
def Fragment.textOf (fragments : List Fragment) : String :=
  (Page.putAll ⟨Page.fourSpaces, 0, ""⟩ fragments).text

end StyleFamily
