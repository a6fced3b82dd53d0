import StyleFamily.Text
import StyleFamily.Text.Reader
import StyleFamily.Toml.Value

/-!
# TOML scalars without quotes

Booleans, integers, floats and dates, recognised by their spelling.
-/
namespace StyleFamily.Toml

/-- Whether digits are written with single underscores only between them. -/
def isDigitRun (digit : Char → Bool) : List Char → Bool
  | [] => false
  | [c] => digit c
  | c :: '_' :: rest => digit c && isDigitRun digit rest
  | c :: rest => digit c && isDigitRun digit rest

/-- A spelling without its sign. -/
def unsigned : List Char → List Char
  | '+' :: rest => rest
  | '-' :: rest => rest
  | rest => rest

/-- Digits without a zero in front, unless that is all. -/
def isDecimal : List Char → Bool
  | ['0'] => true
  | '0' :: _ => false
  | digits => isDigitRun Char.isDigit digits

def isOctalDigit (c : Char) : Bool := '0' ≤ c && c ≤ '7'
def isBinaryDigit (c : Char) : Bool := c == '0' || c == '1'
def isHexDigit (c : Char) : Bool := (Text.hexDigit? c).isSome

/-- Digits after the mark of a base. The mark alone is taken too: no value is asked of it here. -/
def isBased (digit : Char → Bool) (digits : List Char) : Bool :=
  digits.isEmpty || isDigitRun digit digits

/-- Whether the groups after the first underscore of an integer leave a digit of some base on both
sides of every underscore. Nothing else is asked of them: an integer is kept as it is spelled, and
its value is for the one to find who uses it. -/
def areGroups (groups : List (List Char)) : Bool :=
  groups.all (·.head?.any isHexDigit) && groups.dropLast.all (·.getLast?.any isHexDigit)

/-- An integer in base ten. Only the digits before the first underscore are checked one by one. -/
def isDecimalInteger (cs : List Char) : Bool :=
  match Text.pieces '_' cs with
  | [] => false
  | [digits] => isDecimal digits
  | first :: groups => first != ['0'] && isDecimal first && areGroups groups

def isExponentMark (c : Char) : Bool := c == 'e' || c == 'E'

/-- A character that no integer holds, not even where its digits are not checked. -/
def isForeignToIntegers (c : Char) : Bool := c == '.' || c == ' ' || isExponentMark c

def isInteger : List Char → Bool
  | '0' :: 'x' :: digits => isBased isHexDigit digits
  | '0' :: 'o' :: digits => isBased isOctalDigit digits
  | '0' :: 'b' :: digits => isBased isBinaryDigit digits
  | cs => !cs.any isForeignToIntegers && isDecimalInteger (unsigned cs)

/-- Whole digits, then a fraction or an exponent or both. -/
def isFloat (spelling : List Char) : Bool :=
  let cs := unsigned spelling
  if cs == ['i', 'n', 'f'] || cs == ['n', 'a', 'n'] then true
  else
    let mantissa := cs.takeWhile (!isExponentMark ·)
    let exponent := cs.drop mantissa.length
    let whole := mantissa.takeWhile (· != '.')
    let fraction := mantissa.drop whole.length
    isDecimal whole && !(fraction.isEmpty && exponent.isEmpty) &&
      (fraction.isEmpty || isDigitRun Char.isDigit fraction.tail) &&
      (exponent.isEmpty || isDigitRun Char.isDigit (unsigned exponent.tail))

/-- The number that decimal digits spell. -/
def number? (digits : List Char) : Option Nat :=
  if digits.all Char.isDigit then some (digits.foldl (fun n c => 10 * n + (c.toNat - 48)) 0)
  else none

def daysIn (year month : Nat) : Nat :=
  if month = 2 then
    if year % 4 = 0 && (year % 100 != 0 || year % 400 = 0) then 29 else 28
  else if month = 4 || month = 6 || month = 9 || month = 11 then 30
  else 31

/-- A date; leaves what follows it. -/
def date? : List Char → Option (List Char)
  | a :: b :: c :: d :: '-' :: e :: f :: '-' :: g :: h :: rest => do
    let year ← number? [a, b, c, d]
    let month ← number? [e, f]
    let day ← number? [g, h]
    if 1 ≤ month && month ≤ 12 && 1 ≤ day && day ≤ daysIn year month then some rest else none
  | _ => none

/-- Hours and minutes; leaves what follows them. -/
def clock? : List Char → Option (List Char)
  | a :: b :: ':' :: c :: d :: rest => do
    let hour ← number? [a, b]
    let minute ← number? [c, d]
    if hour ≤ 23 && minute ≤ 59 then some rest else none
  | _ => none

/-- What follows hours and minutes: seconds, with or without a fraction, or nothing. -/
def seconds? : List Char → Option (List Char)
  | ':' :: a :: b :: rest => do
    let second ← number? [a, b]
    if 60 < second then none
    else match rest with
      | '.' :: digits =>
        if digits.head?.any Char.isDigit then some (digits.dropWhile Char.isDigit) else none
      | rest => some rest
  | rest => some rest

/-- A distance from universal time. -/
def isOffset : List Char → Bool
  | ['Z'] | ['z'] => true
  | '+' :: rest | '-' :: rest => clock? rest == some []
  | _ => false

def isTime (cs : List Char) : Bool := (clock? cs).bind seconds? == some []

def isDateTime (cs : List Char) : Bool :=
  match date? cs with
  | none => isTime cs
  | some [] => true
  | some (c :: rest) =>
    (c == 'T' || c == 't' || c == ' ') &&
      match (clock? rest).bind seconds? with
      | none => false
      | some offset => offset.isEmpty || isOffset offset

/-- The value that an unquoted spelling stands for. -/
def ofSpelling? (cs : List Char) : Option Toml :=
  if cs == ['t', 'r', 'u', 'e'] then some (.boolean true)
  else if cs == ['f', 'a', 'l', 's', 'e'] then some (.boolean false)
  else if isInteger cs then some (.integer (String.ofList cs))
  else if isFloat cs then some (.float (String.ofList cs))
  else if isDateTime cs then some (.datetime (String.ofList cs))
  else none

def isQuote (c : Char) : Bool := c == '\x22' || c == '\x27'

/-- Whether a character belongs to an unquoted value: any but those that part values, also a quote
unless it comes first. -/
def isSpellingPart (c : Char) : Bool :=
  !(c == ' ' || c == '\t' || c == '\n' || c == '\r' || c == '#' || c == ',' || c == '=' ||
    c == '[' || c == ']' || c == '\x7b' || c == '\x7d')

/-- Splits an unquoted value from what follows it. Blanks belong to it where more of it comes behind
them, as between a date and its time. -/
def splitSpelling : List Char → List Char × List Char
  | [] => ([], [])
  | c :: rest =>
    if isSpellingPart c then
      let (more, left) := splitSpelling rest
      (c :: more, left)
    else if c == ' ' || c == '\t' then
      let (more, left) := splitSpelling rest
      if more.head?.any (!isQuote ·) then (c :: more, left) else ([], c :: rest)
    else ([], c :: rest)

/-- An unquoted value. -/
def readSpelling : Reader Toml := fun cs =>
  let (spelling, rest) := splitSpelling cs
  (ofSpelling? spelling).map (·, rest)

end StyleFamily.Toml
