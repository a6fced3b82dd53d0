import StyleFamily.Toml.Quoted
import StyleFamily.Toml.Scalar
import StyleFamily.Toml.Table

/-!
# TOML documents

A reader of TOML 1.1. A document is a run of lines, each with a header, a key and its value, or
nothing but a comment. Arrays and tables on a line stand at most eighty deep in each other, and a
key joins at most eighty names. The fuel of the recursive readers is bounded by the characters that
are left: a bracket and its item take two steps for every character or more.
-/
namespace StyleFamily.Toml

def isSpace (c : Char) : Bool := c == ' ' || c == '\t'

def skipSpace (cs : List Char) : List Char := cs.dropWhile isSpace

/-- The characters from the next line break on, after the rest of a comment. -/
def skipComment : List Char → Option (List Char)
  | [] => some []
  | '\n' :: rest => some ('\n' :: rest)
  | '\r' :: '\n' :: rest => some ('\n' :: rest)
  | c :: rest => if isPlain c then skipComment rest else none

/-- What follows blanks, comments and line breaks. -/
def skipFiller (inComment : Bool) : List Char → Option (List Char)
  | [] => some []
  | '\n' :: rest => skipFiller false rest
  | '\r' :: '\n' :: rest => skipFiller false rest
  | c :: rest =>
    if inComment then if isPlain c then skipFiller true rest else none
    else if isSpace c then skipFiller false rest
    else if c = '#' then skipFiller true rest
    else some (c :: rest)

/-- The lines after this one, which may hold nothing more than a comment. -/
def nextLine (cs : List Char) : Option (List Char) :=
  match skipSpace cs with
  | [] => some []
  | '\n' :: rest => some rest
  | '\r' :: '\n' :: rest => some rest
  | '#' :: rest => (skipComment rest).map (·.drop 1)
  | _ => none

/-- How deep values may stand in each other, and how many names a key may join. -/
def deepest : Nat := 80

def isBareKeyPart (c : Char) : Bool := c.isAlphanum || c == '_' || c == '-'

/-- One name of a key. -/
def readName : Reader String
  | '"' :: rest => readBasic [] rest
  | '\x27' :: rest => readLiteral [] rest
  | cs =>
    let name := cs.takeWhile isBareKeyPart
    if name.isEmpty then none else some (String.ofList name, cs.drop name.length)

/-- Names joined by points, no more of them than a number. -/
def readNames : Nat → Reader (List String)
  | 0, _ => none
  | count + 1, cs => do
    let (name, rest) ← readName (skipSpace cs)
    match skipSpace rest with
    | '.' :: rest => do
      let (more, rest) ← readNames count rest
      return (name :: more, rest)
    | rest => return ([name], rest)

def readKey : Reader (List String) := readNames deepest

mutual
/-- A value; arrays and tables may still stand in each other as deep as `room`. -/
def readValue : (fuel room : Nat) → Reader Toml
  | 0, _, _ => none
  | fuel + 1, room, cs =>
    match cs with
    | '"' :: _ => (readQuoted cs).map fun (text, rest) => (.string text, rest)
    | '\x27' :: _ => (readQuoted cs).map fun (text, rest) => (.string text, rest)
    | '[' :: rest =>
      if room = 0 then none
      else (readItems fuel (room - 1) rest).map fun (items, rest) => (.array items, rest)
    | '\x7b' :: rest =>
      if room = 0 then none
      else (readPairs fuel (room - 1) rest []).map fun (entries, rest) =>
        (.table (finishEntries entries), rest)
    | _ => readSpelling cs

/-- The items of an array, after its opening bracket or a comma. -/
def readItems : (fuel room : Nat) → Reader (List Toml)
  | 0, _, _ => none
  | fuel + 1, room, cs => do
    match ← skipFiller false cs with
    | ']' :: rest => return ([], rest)
    | cs => do
      let (item, rest) ← readValue fuel room cs
      match ← skipFiller false rest with
      | ',' :: rest => do
        let (items, rest) ← readItems fuel room rest
        return (item :: items, rest)
      | ']' :: rest => return ([item], rest)
      | _ => none

/-- The keys and values of a table on a line, after its opening brace or a comma. -/
def readPairs : (fuel room : Nat) → List Char → Entries → Option (Entries × List Char)
  | 0, _, _, _ => none
  | fuel + 1, room, cs, entries => do
    match ← skipFiller false cs with
    | '\x7d' :: rest => return (entries, rest)
    | cs => do
      let (key, rest) ← readKey cs
      let '=' :: rest ← skipFiller false rest | none
      let (value, rest) ← readValue fuel room (← skipFiller false rest)
      let entries ← entries.define value key
      match ← skipFiller false rest with
      | ',' :: rest => readPairs fuel room rest entries
      | '\x7d' :: rest => return (entries, rest)
      | _ => none
end

/-- What was read of a document: its entries, and the header that keys are put under. -/
structure Progress where
  entries : Entries := []
  header : List String := []

/-- One line; leaves the lines after it. -/
def readLine (progress : Progress) (cs : List Char) : Option (Progress × List Char) := do
  match skipSpace cs with
  | '[' :: '[' :: rest => do
    let (key, rest) ← readKey rest
    let ']' :: ']' :: rest := rest | none
    return (⟨← progress.entries.openItem key, key⟩, ← nextLine rest)
  | '[' :: rest => do
    let (key, rest) ← readKey rest
    let ']' :: rest := rest | none
    return (⟨← progress.entries.openTable key, key⟩, ← nextLine rest)
  | cs =>
    match nextLine cs with
    | some rest => return (progress, rest)
    | none => do
      let (key, rest) ← readKey cs
      let '=' :: rest := rest | none
      let (value, rest) ← readValue (2 * rest.length + 2) deepest (skipSpace rest)
      return ({ progress with entries := ← progress.entries.defineUnder value key progress.header },
        ← nextLine rest)

def readLines : Nat → Progress → List Char → Option Progress
  | _, progress, [] => some progress
  | 0, _, _ => none
  | fuel + 1, progress, cs => do
    let (progress, rest) ← readLine progress cs
    readLines fuel progress rest

/-- A document without the mark of its byte order. -/
def withoutMark : List Char → List Char
  | '\ufeff' :: rest => rest
  | cs => cs

/-- The entries of the table that a text spells. -/
def read? (text : String) : Option (List (String × Toml)) :=
  let cs := withoutMark text.toList
  (readLines (cs.length + 1) {} cs).map fun progress => finishEntries progress.entries

end StyleFamily.Toml
