/-!
# Arguments

How the arguments of a command are told apart: options with and without a value, and the others.
Arguments are read from left to right, and the first one that cannot stand ends the reading.
-/
namespace StyleFamily.CommandLine

/-- An option of a command: a flag, or one that takes a value. -/
structure Switch where
  long : String
  short : Option Char
  takesValue : Bool
deriving DecidableEq

/-- What was read: options by long name, a flag with no text, and the other arguments in order. -/
structure Arguments where
  options : List (String × String) := []
  positionals : List String := []
deriving DecidableEq

/-- Why reading ends before the arguments do. -/
inductive Stop
  | help
  | refused
deriving DecidableEq

namespace Arguments

/-- The value of an option, if it was given. -/
def value? (arguments : Arguments) (switch : Switch) : Option String :=
  arguments.options.lookup switch.long

def has (arguments : Arguments) (switch : Switch) : Bool := (arguments.value? switch).isSome

/-- Records an option; none may be given twice, and a value may not be empty. -/
def record (arguments : Arguments) (switch : Switch) (value : List Char) :
    Except Stop Arguments :=
  if arguments.has switch || (switch.takesValue && value.isEmpty) then .error .refused
  else .ok { arguments with
    options := arguments.options ++ [(switch.long, String.ofList value)] }

end Arguments

/-- What an argument is by its dashes. -/
inductive Form
  | escape
  | long (name : List Char) (value : Option (List Char))
  | short (letter : Char) (rest : List Char)
  | positional

def formOf : List Char → Form
  | ['-', '-'] => .escape
  | '-' :: '-' :: body =>
    let name := body.takeWhile (· != '=')
    .long name (if name.length < body.length then some (body.drop (name.length + 1)) else none)
  | '-' :: letter :: rest => .short letter rest
  | _ => .positional

/-- A short option's value may stand right behind its letter, or behind an equals sign. -/
def attachedValue : List Char → Option (List Char)
  | [] => none
  | '=' :: value => some value
  | value => some value

/-- The options of a command, and how many other arguments of which kind it takes. -/
structure Grammar where
  switches : List Switch := []
  positionalLimit : Nat := 0
  accepts : String → Bool := fun _ => true

/-- How far reading has come. -/
structure Reading where
  arguments : Arguments := {}
  /-- The option whose value comes next. -/
  awaiting : Option Switch := none
  /-- Only positional arguments are left. -/
  escaped : Bool := false

namespace Grammar

def named (grammar : Grammar) (name : List Char) : Option Switch :=
  grammar.switches.find? (·.long.toList == name)

def lettered (grammar : Grammar) (letter : Char) : Option Switch :=
  grammar.switches.find? (·.short == some letter)

/-- Takes one more positional argument, if the limit allows it and it is of the right kind. -/
def takePositional (grammar : Grammar) (reading : Reading) (text : List Char) :
    Except Stop Reading :=
  let argument := String.ofList text
  let positionals := reading.arguments.positionals ++ [argument]
  if positionals.length ≤ grammar.positionalLimit && grammar.accepts argument then
    .ok { reading with arguments := { reading.arguments with positionals } }
  else .error .refused

/-- Takes an option with the value that is attached to it, if any is. -/
def takeSwitch (reading : Reading) (switch : Switch) (attached : Option (List Char)) :
    Except Stop Reading :=
  match switch.takesValue, attached with
  | true, some value => return { reading with arguments := ← reading.arguments.record switch value }
  | true, none => .ok { reading with awaiting := some switch }
  | false, some _ => .error .refused
  | false, none => return { reading with arguments := ← reading.arguments.record switch [] }

/-- Reads an argument that no option waits for. -/
def takeFree (grammar : Grammar) (reading : Reading) (text : List Char) : Except Stop Reading :=
  match formOf text with
  | .escape => .ok { reading with escaped := true }
  | .positional => grammar.takePositional reading text
  | .long name value =>
    if name = "help".toList then .error (if value.isSome then .refused else .help)
    else match grammar.named name with
      | some switch => takeSwitch reading switch value
      | none => .error .refused
  | .short letter rest =>
    if letter = 'h' then .error .help
    else match grammar.lettered letter with
      | some switch => takeSwitch reading switch (attachedValue rest)
      | none => .error .refused

/-- Reads one argument. What begins with a dash is no value, but for the dash alone. -/
def take (grammar : Grammar) (reading : Reading) (text : List Char) : Except Stop Reading :=
  if reading.escaped then grammar.takePositional reading text
  else match reading.awaiting with
    | none => grammar.takeFree reading text
    | some switch =>
      match formOf text with
      | .positional =>
        return { arguments := ← reading.arguments.record switch text }
      | _ => .error .refused

/-- Reads all arguments of a command. -/
def read (grammar : Grammar) (arguments : List String) : Except Stop Arguments := do
  let reading ← arguments.foldlM (fun reading text => grammar.take reading text.toList) {}
  if reading.awaiting.isSome then .error .refused else .ok reading.arguments

end Grammar
end StyleFamily.CommandLine
