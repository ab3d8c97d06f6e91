import Markup.Cli.Run

/-!
# The `mixup` program

The command line on the real file system: files are read and written where the paths say,
the spec may come from standard input, and the outcome's texts go to standard output and
standard error before the program exits with its status.
-/

namespace Markup.Cli

/-- A failure of the file system as the program reports it. -/
def osErrorOf (e : IO.Error) : OsError :=
  match e with
  | .noFileOrDirectory _ _ _ => .notFound
  | .inappropriateType _ 21 _ => .isDirectory
  | .inappropriateType _ 20 _ => .notDirectory
  | .invalidArgument _ 36 _ => .nameTooLong
  | e => .other (toString e)

/-- The host of the real file system and standard input. -/
def systemHost : Host IO where
  readFile path := do
    try
      return .ok (← IO.FS.readFile path)
    catch e =>
      return .error (osErrorOf e)
  readInput := do
    (← IO.getStdin).readToEnd
  writeFile path text := do
    try
      IO.FS.writeFile path text
      return .ok ()
    catch e =>
      return .error (osErrorOf e)

end Markup.Cli

/-- Runs the program on the command line's arguments. -/
def main (args : List String) : IO UInt32 := do
  let outcome ← Markup.Cli.execute Markup.Cli.systemHost args
  let out ← IO.getStdout
  out.putStr outcome.stdout
  out.flush
  let err ← IO.getStderr
  err.putStr outcome.stderr
  err.flush
  return outcome.status.toUInt32
