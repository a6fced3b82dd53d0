/-!
# Structured documents

The values of a JSON document and the two ways to write one: on a single line, and indented by two
spaces with one item a line. A number is kept by its text.
-/
namespace StyleFamily

inductive Document
  | null
  | bool (value : Bool)
  | number (text : String)
  | string (value : String)
  | array (items : List Document)
  | object (fields : List (String × Document))

namespace Document

def nat (n : Nat) : Document := .number (toString n)

def optional (value : Option α) (encode : α → Document) : Document :=
  (value.map encode).getD .null

def strings (values : List String) : Document := .array (values.map .string)

/-- A character of a string: quotes, backslashes and control characters are escaped. -/
def escaped (c : Char) : List Char :=
  if c = '"' then ['\\', '"']
  else if c = '\\' then ['\\', '\\']
  else if c = '\n' then ['\\', 'n']
  else if c = '\r' then ['\\', 'r']
  else if c = '\t' then ['\\', 't']
  else if c = '\x08' then ['\\', 'b']
  else if c = '\x0c' then ['\\', 'f']
  else if c.toNat < 0x20 then
    ['\\', 'u', '0', '0', Nat.digitChar (c.toNat / 16), Nat.digitChar (c.toNat % 16)]
  else [c]

def quoted (s : String) : String :=
  "\"" ++ String.ofList (s.toList.flatMap escaped) ++ "\""

mutual
/-- The document on one line. -/
def compact : Document → String
  | .null => "null"
  | .bool b => if b then "true" else "false"
  | .number text => text
  | .string s => quoted s
  | .array items => "[" ++ ",".intercalate (compactItems items) ++ "]"
  | .object fields => "\x7b" ++ ",".intercalate (compactFields fields) ++ "\x7d"

def compactItems : List Document → List String
  | [] => []
  | item :: rest => compact item :: compactItems rest

def compactFields : List (String × Document) → List String
  | [] => []
  | (name, value) :: rest => (quoted name ++ ":" ++ compact value) :: compactFields rest
end

/-- Items on lines of their own between two brackets; an empty list of items stays on one line. -/
def bracketed (opening closing : String) (depth : Nat) (items : List String) : String :=
  if items.isEmpty then opening ++ closing
  else
    let margin := "\n" ++ String.ofList (List.replicate (2 * depth) ' ')
    opening ++ ",".intercalate (items.map (margin ++ "  " ++ ·)) ++ margin ++ closing

mutual
/-- The document over several lines, at a depth of nesting. -/
def indented (depth : Nat) : Document → String
  | .array items => bracketed "[" "]" depth (indentedItems depth items)
  | .object fields => bracketed "\x7b" "\x7d" depth (indentedFields depth fields)
  | scalar => compact scalar

def indentedItems (depth : Nat) : List Document → List String
  | [] => []
  | item :: rest => indented (depth + 1) item :: indentedItems depth rest

def indentedFields (depth : Nat) : List (String × Document) → List String
  | [] => []
  | (name, value) :: rest =>
    (quoted name ++ ": " ++ indented (depth + 1) value) :: indentedFields depth rest
end

/-- The document over several lines. -/
def pretty (document : Document) : String := indented 0 document

end Document
end StyleFamily
