import StyleFamily.Text

/-!
# Layout of reports

A report is a list of lines, each for one of two streams. The functions below lay out the parts a
report is made of.
-/
namespace StyleFamily

inductive Stream
  | output
  | error
deriving DecidableEq

/-- A line of a report; its text may itself hold line breaks. -/
structure Line where
  stream : Stream
  text : String
deriving DecidableEq

namespace Report

def plain (text : String) : List Line := [⟨.output, text⟩]

/-- A text underlined over its whole width. -/
def title (text : String) : List Line :=
  plain text ++ plain (String.ofList (List.replicate text.length '='))

def sectionNamed (name : String) : List Line := plain (name ++ ":")

def keyValue (key value : String) : List Line := plain (key ++ ": " ++ value)

def keyValueIndented (key value : String) : List Line := plain ("  " ++ key ++ ": " ++ value)

def numberedItem (index : Nat) (text : String) : List Line :=
  plain ("  " ++ toString index ++ ". " ++ text)

def listItem (text : String) : List Line := plain ("  - " ++ text)

/-- A file that was created or changed. -/
def addedItem (text : String) : List Line := plain ("  + " ++ text)

def error (text : String) : List Line := [⟨.error, "error: " ++ text⟩]

def warning (text : String) : List Line := [⟨.error, "warning: " ++ text⟩]

def divider (label : String) : List Line := plain ("── " ++ label ++ " ──")

/-- A text as it is, line by line. -/
def preformatted (text : String) : List Line := (Text.lines text).map (⟨.output, ·⟩)

def newline : List Line := plain ""

/-- Items numbered from one. -/
def numbered (items : List String) : List Line :=
  (items.zipIdx 1).flatMap fun (text, index) => numberedItem index text

/-- What a stream shows: its lines, each ended by a line feed. -/
def shown (stream : Stream) (lines : List Line) : String :=
  String.join ((lines.filter (·.stream = stream)).map (·.text ++ "\n"))

end Report
end StyleFamily
