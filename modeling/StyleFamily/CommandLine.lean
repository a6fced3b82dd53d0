import StyleFamily.Command.Check
import StyleFamily.Command.Explain
import StyleFamily.CommandLine.Request

/-!
# The command line

What a list of arguments is answered with: lines for the two streams, and an exit code. It is 0
after success, 1 after a command that failed or a manifest that was refused, and 2 for arguments
that make no sense.
-/
namespace StyleFamily.CommandLine

structure Reply where
  code : Nat
  lines : List Line := []
deriving DecidableEq

namespace Reply

def succeeded (lines : List Line) : Reply := ⟨0, lines⟩

def failed (message : String) : Reply := ⟨1, Report.error message⟩

/-- What a stream shows. -/
def shown (reply : Reply) (stream : Stream) : String := Report.shown stream reply.lines

/-- A report makes for success or not; a failure has the messages of its causes. -/
def ofReport (isSuccess : ρ → Bool) (lines : ρ → List Line) : Except CommandFailure ρ → Reply
  | .ok report => ⟨if isSuccess report then 0 else 1, lines report⟩
  | .error failure => failed (": ".intercalate failure.messages)

end Reply

def usage : List String :=
  ["Usage: stylegen <command> [options]",
    "",
    "  generate     [-c <manifest>] [-o <directory>] [--dry-run] [--visualize]",
    "  check        [-c <manifest>]",
    "  explain      [-c <manifest>]",
    "  completions  <bash|elvish|fish|powershell|zsh>",
    "  help         [command]"]

/-- A line for the start of a shell that completes the names of commands. -/
def completionLine (shell : Shell) : String :=
  let names := " ".intercalate commandNames
  match shell with
  | .bash => "complete -W \"" ++ names ++ "\" stylegen"
  | .elvish => "set edit:completion:arg-completer[stylegen] = \x7b|@words| put " ++ names ++ " \x7d"
  | .fish => "complete -c stylegen -f -a \"" ++ names ++ "\""
  | .powershell =>
    "Register-ArgumentCompleter -Native -CommandName stylegen -ScriptBlock \x7b -split \"" ++
      names ++ "\" \x7d"
  | .zsh => "compctl -k \"(" ++ names ++ ")\" stylegen"

/-- Opens a manifest and goes on with it; one that is refused is reported. -/
def withManifest [Monad m] (files : FileAccess m) (config : Path)
    (next : ManifestFile → m Reply) : m Reply := do
  match ← ManifestFile.read files config with
  | .ok file => next file
  | .error error => return .failed error.message

def Command.run [Monad m] (files : FileAccess m) : Command → m Reply
  | .generate config options => withManifest files config fun file =>
    .ofReport (·.isSuccess) (·.lines) <$> file.generate files options
  | .check config => withManifest files config fun file =>
    return .ofReport (·.isValid) (·.lines) file.check
  | .explain config => withManifest files config fun file =>
    return .ofReport (fun _ => true) (·.lines) file.explain
  | .completions shell => return .succeeded (Report.plain (completionLine shell))

/-- Answers a list of arguments. -/
def answer [Monad m] (files : FileAccess m) (arguments : List String) : m Reply :=
  match Request.ofArguments arguments with
  | .command command => command.run files
  | .version => return .succeeded (Report.plain "stylegen 0.1.0")
  | .help => return .succeeded (usage.flatMap Report.plain)
  | .refused => return ⟨2, usage.map (⟨.error, ·⟩)⟩

end StyleFamily.CommandLine
