import StyleFamily.CommandLine

/-!
# The program

Runs the command line on the files of the machine.
-/
namespace StyleFamily

/-- Whether an action went through. -/
def succeeds (action : IO Unit) : IO Bool := do
  try
    action
    return true
  catch _ => return false

/-- The files of the machine. -/
def FileAccess.machine : FileAccess IO where
  read path := do
    try
      return some (← IO.FS.readFile path.text)
    catch _ => return none
  createDirectories path := succeeds (IO.FS.createDirAll path.text)
  write path text := succeeds (IO.FS.writeFile path.text text)
  rename source destination := succeeds (IO.FS.rename source.text destination.text)
  remove path := do discard (succeeds (IO.FS.removeFile path.text))

end StyleFamily

def main (arguments : List String) : IO UInt32 := do
  let reply ← StyleFamily.CommandLine.answer StyleFamily.FileAccess.machine arguments
  (← IO.getStdout).putStr (reply.shown .output)
  (← IO.getStderr).putStr (reply.shown .error)
  return reply.code.toUInt32
