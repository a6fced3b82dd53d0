/-!
# Plain text

Small questions about text that several parts of the library ask: where its lines end, whether
one text stands inside another, what is left without an ending, and how a count is worded.
-/
namespace StyleFamily.Text

/-- Whether `part` stands somewhere in a text. -/
def occursIn (part : List Char) : List Char → Bool
  | [] => part.isEmpty
  | c :: rest => part.isPrefixOf (c :: rest) || occursIn part rest

/-- Whether `part` stands somewhere in `whole`. -/
def contains (whole part : String) : Bool :=
  occursIn part.toList whole.toList

/-- The pieces of a text between the occurrences of `separator`; always at least one. -/
def pieces (separator : Char) : List Char → List (List Char)
  | [] => [[]]
  | c :: rest =>
    if c = separator then [] :: pieces separator rest
    else match pieces separator rest with
      | [] => [[c]]
      | piece :: more => (c :: piece) :: more

/-- The pieces of `text` between the occurrences of `separator`. -/
def splitAt (separator : Char) (text : String) : List String :=
  (pieces separator text.toList).map String.ofList

/-- A finished line, kept last character first: a carriage return before the break is part of it. -/
def closeLine : List Char → List Char
  | '\r' :: line => line.reverse
  | line => line.reverse

/-- Lines of the characters, `line` being the unfinished one, last character first. -/
def linesFrom (line : List Char) : List Char → List (List Char)
  | [] => if line.isEmpty then [] else [line.reverse]
  | '\n' :: rest => closeLine line :: linesFrom [] rest
  | c :: rest => linesFrom (c :: line) rest

/-- The lines of a text. A break is a line feed, with the carriage return before it if there is
one; a text that ends in a break has no empty line after it. -/
def lines (text : String) : List String :=
  (linesFrom [] text.toList).map String.ofList

/-- What `text` holds before the ending `suffix`, if it ends so. -/
def withoutSuffix? (text suffix : String) : Option String :=
  if suffix.toList.isSuffixOf text.toList then
    some (String.ofList (text.toList.take (text.toList.length - suffix.toList.length)))
  else none

/-- A number of things, worded for one or for several. -/
def counted (count : Nat) (singular plural : String) : String :=
  toString count ++ " " ++ if count = 1 then singular else plural

/-- Characters counted as blank at either end of a trimmed text: the white space of Unicode. -/
def isBlank (c : Char) : Bool :=
  let n := c.toNat
  (0x09 ≤ n && n ≤ 0x0D) || n == 0x20 || n == 0x85 || n == 0xA0 || n == 0x1680 ||
    (0x2000 ≤ n && n ≤ 0x200A) || n == 0x2028 || n == 0x2029 || n == 0x202F || n == 0x205F ||
    n == 0x3000

/-- The characters without the blank ones at both ends. -/
def trimmed (text : List Char) : List Char :=
  ((text.dropWhile isBlank).reverse.dropWhile isBlank).reverse

/-- `text` without the blank characters at both ends. -/
def trim (text : String) : String :=
  String.ofList (trimmed text.toList)

end StyleFamily.Text
