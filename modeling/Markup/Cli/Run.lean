import Markup.Cli.Args
import Markup.Render.Basic
import Markup.Render.ConfigText

/-!
# Running the command line

The program reads its settings file (if `--config` names one), lets the flags switch
settings on or set the indent, reads the spec (a file, or standard input for `-`), renders
it, and writes the XML to the `--output` file, or to standard output followed by a newline.

Any failure stops the run with `Error: <message>` on standard error and status 1; a refused
command line gives status 2, and help or version status 0.

The surroundings are a `Host`: reading a file, reading standard input and writing a file,
in some monad. The program is the same for every host, so it can run on a real file
system or on a directory held in memory.
-/

namespace Markup.Cli

/-- Why a file could not be read or written, with the system's text. -/
inductive OsError where
  | notFound
  | isDirectory
  | notDirectory
  | nameTooLong
  | other (text : String)
  deriving DecidableEq, Repr

/-- The text of a file failure. -/
def OsError.message : OsError → String
  | .notFound => "No such file or directory (os error 2)"
  | .isDirectory => "Is a directory (os error 21)"
  | .notDirectory => "Not a directory (os error 20)"
  | .nameTooLong => "File name too long (os error 36)"
  | .other text => text

/-- What the program needs from its surroundings. -/
structure Host (m : Type → Type) where
  readFile : String → m (Except OsError String)
  readInput : m String
  writeFile : String → String → m (Except OsError Unit)

/-- The exit status and the text written to standard output and standard error. -/
structure Outcome where
  status : Nat
  stdout : String
  stderr : String
  deriving DecidableEq, Repr

/-- The settings after the flags: they only switch settings on or set the indent. -/
def Invocation.settings (inv : Invocation) (base : RenderConfig) : RenderConfig :=
  let c := if inv.fragment then { base with root := .fragment } else base
  let c := match inv.indent with
    | some n => { c with indent := some n }
    | none => c
  let c := if inv.declaration then { c with declaration := true } else c
  if inv.strict then { c with policy := .strict } else c

section

variable {m : Type → Type} [Monad m]

/-- Reads a file, failing with a read failure that names what was read. -/
def readNamed (host : Host m) (what path : String) : ExceptT RenderError m String := do
  match ← host.readFile path with
  | .ok text => return text
  | .error e => throw (.io ("Failed to read " ++ what ++ " from '" ++ path ++ "': " ++ e.message))

/-- The settings of a run: those of the settings file, or the defaults. -/
def baseSettings (host : Host m) : Option String → ExceptT RenderError m RenderConfig
  | none => pure {}
  | some path => do
    let text ← readNamed host "config" path
    match Config.renderOfText text with
    | .ok c => return c
    | .error e => throw (.config ("'" ++ path ++ "': " ++ e.message))

/-- Renders as asked; returns what goes to standard output. -/
def perform (host : Host m) (inv : Invocation) : ExceptT RenderError m String := do
  let settings := inv.settings (← baseSettings host inv.config)
  let source ← if inv.spec == "-" then (host.readInput : m String) else readNamed host "spec" inv.spec
  let xml ← match settings.renderText source with
    | .ok xml => pure xml
    | .error e => throw e
  match inv.output with
  | some path =>
    match ← host.writeFile path xml with
    | .ok () => return ""
    | .error e => throw (.io e.message)
  | none => return xml ++ "\n"

/-- Runs the program on its arguments. -/
def execute (host : Host m) (args : List String) : m Outcome := do
  match parseArgs args with
  | .help => return ⟨0, helpText, ""⟩
  | .version => return ⟨0, versionText, ""⟩
  | .refuse e => return ⟨2, "", e.text⟩
  | .render inv =>
    match ← (perform host inv).run with
    | .ok out => return ⟨0, out, ""⟩
    | .error e => return ⟨1, "", "Error: " ++ e.message ++ "\n"⟩

end

end Markup.Cli
