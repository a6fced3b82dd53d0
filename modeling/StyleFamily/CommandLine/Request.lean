import StyleFamily.Command.Generate
import StyleFamily.CommandLine.Arguments

/-!
# Requests

What a list of arguments asks for.
-/
namespace StyleFamily.CommandLine

/-- Shells that completions can be written for. -/
inductive Shell
  | bash | elvish | fish | powershell | zsh
deriving DecidableEq

def Shell.named : String → Option Shell
  | "bash" => some .bash
  | "elvish" => some .elvish
  | "fish" => some .fish
  | "powershell" => some .powershell
  | "zsh" => some .zsh
  | _ => none

inductive Command
  | generate (config : Path) (options : GenerateOptions)
  | check (config : Path)
  | explain (config : Path)
  | completions (shell : Shell)

inductive Request
  | command (command : Command)
  | version
  | help
  /-- The arguments make no sense. -/
  | refused

def Request.ofStop : Stop → Request
  | .help => .help
  | .refused => .refused

def configSwitch : Switch := ⟨"config", some 'c', true⟩
def outputSwitch : Switch := ⟨"output", some 'o', true⟩
def dryRunSwitch : Switch := ⟨"dry-run", none, false⟩
def visualizeSwitch : Switch := ⟨"visualize", none, false⟩

/-- The manifest that is named, or the one with the usual name. -/
def configPath (arguments : Arguments) : Path :=
  ⟨(arguments.value? configSwitch).getD Manifest.defaultFileName⟩

/-- Reads the arguments of a command that takes options alone. -/
def request (switches : List Switch) (arguments : List String)
    (command : Arguments → Command) : Request :=
  match Grammar.read { switches } arguments with
  | .ok arguments => .command (command arguments)
  | .error stop => .ofStop stop

/-- Completions name exactly one shell. -/
def completionsRequest (arguments : List String) : Request :=
  let grammar : Grammar := { positionalLimit := 1, accepts := (Shell.named · |>.isSome) }
  match grammar.read arguments with
  | .error stop => .ofStop stop
  | .ok arguments =>
    match arguments.positionals.map Shell.named with
    | [some shell] => .command (.completions shell)
    | _ => .refused

def commandNames : List String := ["generate", "check", "explain", "completions", "help"]

/-- Help is given on the whole or on one command. -/
def helpRequest : List String → Request
  | [] => .help
  | [name] => if commandNames.contains name then .help else .refused
  | _ => .refused

def Request.ofArguments : List String → Request
  | "generate" :: rest =>
    request [configSwitch, outputSwitch, dryRunSwitch, visualizeSwitch] rest fun arguments =>
      .generate (configPath arguments)
        { output := (arguments.value? outputSwitch).map Path.mk
          dryRun := arguments.has dryRunSwitch
          visualize := arguments.has visualizeSwitch }
  | "check" :: rest => request [configSwitch] rest fun arguments => .check (configPath arguments)
  | "explain" :: rest =>
    request [configSwitch] rest fun arguments => .explain (configPath arguments)
  | "completions" :: rest => completionsRequest rest
  | "help" :: rest => helpRequest rest
  | first :: _ =>
    match formOf first.toList with
    | .long name none =>
      if name = "help".toList then .help else if name = "version".toList then .version else .refused
    | .short letter _ => if letter = 'h' then .help else if letter = 'V' then .version else .refused
    | _ => .refused
  | [] => .refused

end StyleFamily.CommandLine
