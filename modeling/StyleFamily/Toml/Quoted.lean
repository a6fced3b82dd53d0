import StyleFamily.Text.Reader

/-!
# TOML strings

The four kinds of quoted text: on one line or on several, with escapes or without.
-/
namespace StyleFamily.Toml

/-- A character that may stand in quoted text or a comment as it is: no control but the tab. -/
def isPlain (c : Char) : Bool := c == '\t' || (0x20 ≤ c.toNat && c.toNat != 0x7F)

/-- The character an escape of a single letter stands for. -/
def letterEscape? : Char → Option Char
  | 'b' => some '\x08'
  | 't' => some '\t'
  | 'n' => some '\n'
  | 'f' => some '\x0c'
  | 'r' => some '\r'
  | 'e' => some '\x1b'
  | '\\' => some '\\'
  | c => if c = '"' then some c else none

def codeEscape? (digits : List Char) : Option Char := (Text.hexNumber? digits).bind Text.charOf?

/-- Text on one line with escapes, after its opening quote; `read` holds what was read, last
character first. -/
def readBasic (read : List Char) : Reader String
  | '"' :: rest => some (String.ofList read.reverse, rest)
  | '\\' :: 'x' :: a :: b :: rest => do readBasic ((← codeEscape? [a, b]) :: read) rest
  | '\\' :: 'u' :: a :: b :: c :: d :: rest => do
    readBasic ((← codeEscape? [a, b, c, d]) :: read) rest
  | '\\' :: 'U' :: a :: b :: c :: d :: e :: f :: g :: h :: rest => do
    readBasic ((← codeEscape? [a, b, c, d, e, f, g, h]) :: read) rest
  | '\\' :: c :: rest => do readBasic ((← letterEscape? c) :: read) rest
  | c :: rest => if isPlain c then readBasic (c :: read) rest else none
  | [] => none

/-- Text on one line without escapes, after its opening quote. -/
def readLiteral (read : List Char) : Reader String
  | '\x27' :: rest => some (String.ofList read.reverse, rest)
  | c :: rest => if isPlain c then readLiteral (c :: read) rest else none
  | [] => none

/-- The text in front of a closing delimiter: up to two more quotes are part of it. -/
def close (quote : Char) (read rest : List Char) : String × List Char :=
  let extra := (rest.take 2).takeWhile (· == quote)
  (String.ofList (read.reverse ++ extra), rest.drop extra.length)

/-- Where a reader of text on several lines stands. -/
inductive LineState
  | inText
  /-- After a backslash and blanks, with a line break to come. -/
  | beforeBreak
  /-- After an escaped line break: blanks and further breaks are skipped. -/
  | afterBreak

/-- Text on several lines with escapes, after its opening delimiter and the break behind that. -/
def readLongBasic (state : LineState) (read : List Char) : Reader String
  | [] => none
  | c :: rest =>
    match state with
    | .beforeBreak =>
      if c = ' ' || c = '\t' then readLongBasic .beforeBreak read rest
      else if c = '\n' then readLongBasic .afterBreak read rest
      else match c, rest with
        | '\r', '\n' :: rest => readLongBasic .afterBreak read rest
        | _, _ => none
    | .afterBreak =>
      if c = ' ' || c = '\t' || c = '\n' then readLongBasic .afterBreak read rest
      else match c, rest with
        | '\r', '\n' :: rest => readLongBasic .afterBreak read rest
        | '"', '"' :: '"' :: rest => some (close '"' read rest)
        | '\\', rest => escape read rest
        | c, rest => if isPlain c then readLongBasic .inText (c :: read) rest else none
    | .inText =>
      match c, rest with
      | '"', '"' :: '"' :: rest => some (close '"' read rest)
      | '\\', rest => escape read rest
      | '\r', '\n' :: rest => readLongBasic .inText ('\n' :: '\r' :: read) rest
      | '\n', rest => readLongBasic .inText ('\n' :: read) rest
      | c, rest => if isPlain c then readLongBasic .inText (c :: read) rest else none
where
  /-- What follows a backslash. -/
  escape (read : List Char) : Reader String
    | 'x' :: a :: b :: rest => do readLongBasic .inText ((← codeEscape? [a, b]) :: read) rest
    | 'u' :: a :: b :: c :: d :: rest => do
      readLongBasic .inText ((← codeEscape? [a, b, c, d]) :: read) rest
    | 'U' :: a :: b :: c :: d :: e :: f :: g :: h :: rest => do
      readLongBasic .inText ((← codeEscape? [a, b, c, d, e, f, g, h]) :: read) rest
    | ' ' :: rest => readLongBasic .beforeBreak read rest
    | '\t' :: rest => readLongBasic .beforeBreak read rest
    | '\n' :: rest => readLongBasic .afterBreak read rest
    | '\r' :: '\n' :: rest => readLongBasic .afterBreak read rest
    | c :: rest => do readLongBasic .inText ((← letterEscape? c) :: read) rest
    | [] => none

/-- Text on several lines without escapes, after its opening delimiter and the break behind it. -/
def readLongLiteral (read : List Char) : Reader String
  | '\x27' :: '\x27' :: '\x27' :: rest => some (close '\x27' read rest)
  | '\r' :: '\n' :: rest => readLongLiteral ('\n' :: '\r' :: read) rest
  | '\n' :: rest => readLongLiteral ('\n' :: read) rest
  | c :: rest => if isPlain c then readLongLiteral (c :: read) rest else none
  | [] => none

/-- The characters after a line break, if one comes first. -/
def withoutBreak : List Char → List Char
  | '\n' :: rest => rest
  | '\r' :: '\n' :: rest => rest
  | rest => rest

/-- Quoted text of any kind. -/
def readQuoted : Reader String
  | '"' :: '"' :: '"' :: rest => readLongBasic .inText [] (withoutBreak rest)
  | '"' :: rest => readBasic [] rest
  | '\x27' :: '\x27' :: '\x27' :: rest => readLongLiteral [] (withoutBreak rest)
  | '\x27' :: rest => readLiteral [] rest
  | _ => none

end StyleFamily.Toml
