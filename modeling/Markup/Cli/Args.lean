import Markup.Cli.Similar

/-!
# The command line

`mixup [OPTIONS] <SPEC>` takes one spec path (`-` for standard input) and the options
`--output <OUTPUT>` (short `-o`), `--fragment`, `--indent <INDENT>`, `--declaration`,
`--strict`, `--config <CONFIG>` (short `-c`), `--help` (short `-h`) and `--version`
(short `-V`).

Arguments are read left to right. A long option is `--name` or `--name=value`; a short one
is `-x`, and a short option that takes a value may carry it in the same argument
(`-oout.xml`, `-o=out.xml`). An option that takes a value and carries none takes the next
argument, whatever it is, unless that argument looks like an option. After `--` every
argument is a spec path; `--` itself checks nothing, so an option still waiting for its value
is refused only when a spec path or the end comes. Help and version stop the reading at once and are answered
whatever follows; an argument already read but not yet checked is checked first.

A value is checked when the argument after it is read, or at the end: the indent must be a
decimal number below `2 ^ 64`, and paths must not be empty. An option given twice is refused. The refusals
name the argument and end with a usage line and a pointer to `--help`.
-/

namespace Markup.Cli

inductive Param where
  | spec
  | output
  | fragment
  | indent
  | declaration
  | strict
  | config
  | help
  | version
  deriving DecidableEq, Repr

namespace Param

def options : List Param :=
  [.output, .fragment, .indent, .declaration, .strict, .config, .help, .version]

def long : Param → String
  | .spec => "spec"
  | .output => "output"
  | .fragment => "fragment"
  | .indent => "indent"
  | .declaration => "declaration"
  | .strict => "strict"
  | .config => "config"
  | .help => "help"
  | .version => "version"

def short? : Param → Option Char
  | .output => some 'o'
  | .config => some 'c'
  | .help => some 'h'
  | .version => some 'V'
  | _ => none

def takesValue : Param → Bool
  | .spec | .output | .indent | .config => true
  | _ => false

def display : Param → String
  | .spec => "<SPEC>"
  | .output => "--output <OUTPUT>"
  | .indent => "--indent <INDENT>"
  | .config => "--config <CONFIG>"
  | p => "--" ++ p.long

def ofLong? (name : String) : Option Param :=
  options.find? (·.long == name)

def ofShort? (c : Char) : Option Param :=
  options.find? (·.short? == some c)

/-- Whether the parameter is one of the program's settings: the spec and every option but
help and version. -/
def isSetting : Param → Bool
  | .help | .version => false
  | _ => true

end Param

def settingsGroup : String :=
  "<" ++ "|".intercalate ("SPEC" :: (Param.options.filter Param.isSetting).map Param.display) ++ ">"

/-- The usage line. Once a setting was given (`grouped`), the settings show as one group after
the other parameters given; otherwise it is the general line when nothing was given, else the
options given and the spec. -/
def usageLine (used : List Param) (grouped : Bool) : String :=
  if grouped then
    let others := (used.filter (!·.isSetting)).eraseDups
    "mixup" ++ String.join (others.map (" " ++ ·.display)) ++ " " ++ settingsGroup
  else if used.isEmpty then "mixup [OPTIONS] <SPEC>"
  else
    let opts := (used.filter (· != .spec)).eraseDups
    "mixup" ++ String.join (opts.map (" " ++ ·.display)) ++ " <SPEC>"

/-- Why a command line is refused. -/
inductive UsageError where
  /-- An argument that is no option, or a spec path too many; perhaps with a similar
  option, or with the hint to pass it after `--`. -/
  | unknownArgument (arg : String) (similar : Option String) (hint : Bool) (used : List Param)
      (grouped : Bool)
  | missingValue (p : Param)
  | invalidValue (p : Param) (value reason : String)
  | repeated (p : Param)
  | unneededValue (p : Param) (value : String) (used : List Param) (grouped : Bool)
  | missingSpec (used : List Param)

def tryHelp : String :=
  "\n\nFor more information, try '--help'.\n"

/-- The text of a refusal, as written to standard error. -/
def UsageError.text : UsageError → String
  | .unknownArgument arg similar hint used grouped =>
    let similarText := match similar with
      | some s => "\n\n  tip: a similar argument exists: '" ++ s ++ "'"
      | none => ""
    let hintText := if hint then
        "\n\n  tip: to pass '" ++ arg ++ "' as a value, use '-- " ++ arg ++ "'"
      else ""
    "error: unexpected argument '" ++ arg ++ "' found" ++ similarText ++ hintText ++
      "\n\nUsage: " ++ usageLine used grouped ++ tryHelp
  | .missingValue p =>
    "error: a value is required for '" ++ p.display ++ "' but none was supplied" ++ tryHelp
  | .invalidValue p v reason =>
    "error: invalid value '" ++ v ++ "' for '" ++ p.display ++ "': " ++ reason ++ tryHelp
  | .repeated p =>
    "error: the argument '" ++ p.display ++ "' cannot be used multiple times" ++
      "\n\nUsage: " ++ usageLine [] false ++ tryHelp
  | .unneededValue p v used grouped =>
    "error: unexpected value '" ++ v ++ "' for '" ++ p.display ++
      "' found; no more were expected" ++ "\n\nUsage: " ++ usageLine used grouped ++ tryHelp
  | .missingSpec used =>
    "error: the following required arguments were not provided:\n  <SPEC>" ++
      "\n\nUsage: " ++ usageLine used false ++ tryHelp

/-- Reads a number below `2 ^ 64` in decimal, with an optional leading `+`; the reason it
does not read otherwise. Digits are taken left to right, so the first bad character decides. -/
def readSize (s : String) : Except String Nat :=
  let digits := match s.toList with
    | ['+'] => none
    | '+' :: rest => some rest
    | cs => some cs
  match s.isEmpty, digits with
  | true, _ => .error "cannot parse integer from empty string"
  | false, none => .error "invalid digit found in string"
  | false, some ds =>
    ds.foldlM (fun (acc : Nat) d =>
      if !d.isDigit then .error "invalid digit found in string"
      else
        let acc := acc * 10 + (d.toNat - '0'.toNat)
        if acc ≥ Nat.pow 2 64 then .error "number too large to fit in target type" else .ok acc) 0

structure Invocation where
  spec : String
  output : Option String := none
  fragment : Bool := false
  indent : Option Nat := none
  declaration : Bool := false
  strict : Bool := false
  config : Option String := none
  deriving DecidableEq, Repr

/-- The parameters given so far, in the order first given, and their values; `grouped` once
a setting was taken, even one given twice and then dropped. -/
structure Matched where
  order : List Param := []
  grouped : Bool := false
  spec : Option String := none
  output : Option String := none
  fragment : Bool := false
  indent : Option Nat := none
  declaration : Bool := false
  strict : Bool := false
  config : Option String := none

def Matched.store (m : Matched) (p : Param) (v : Option String) : Except UsageError Matched :=
  let path (set : String → Matched) : Except UsageError Matched :=
    match v with
    | some s => if s.isEmpty then .error (.missingValue p) else .ok (set s)
    | none => .error (.missingValue p)
  match p with
  | .spec => path fun s => { m with spec := some s }
  | .output => path fun s => { m with output := some s }
  | .config => path fun s => { m with config := some s }
  | .indent =>
    match v with
    | some s =>
      match readSize s with
      | .ok n => .ok { m with indent := some n }
      | .error reason => .error (.invalidValue p s reason)
    | none => .error (.missingValue p)
  | .fragment => .ok { m with fragment := true }
  | .declaration => .ok { m with declaration := true }
  | .strict => .ok { m with strict := true }
  | .help | .version => .ok m

/-- Takes a parameter with its value, if any: a value is required where one is taken, a
second occurrence is refused (and forgotten), and otherwise the parameter counts as given
even when its value is then refused. -/
def Matched.accept (m : Matched) (p : Param) (v : Option String) : Matched × Option UsageError :=
  if p.takesValue && v.isNone then (m, some (.missingValue p))
  else if m.order.contains p then ({ m with order := m.order.erase p }, some (.repeated p))
  else
    let m := { m with order := m.order ++ [p], grouped := true }
    match m.store p v with
    | .ok m => (m, none)
    | .error e => (m, some e)

/-- The reading state: the parameters taken, one read but not yet checked (with its value,
none while an option still waits for it), whether the spec was given, and whether `--` was
seen. -/
structure ArgState where
  matched : Matched := {}
  pending : Option (Param × Option String) := none
  specSeen : Bool := false
  trailing : Bool := false

/-- What a command line asks for. -/
inductive Request where
  | help
  | version
  | render (inv : Invocation)
  | refuse (e : UsageError)

namespace ArgState

def settle (st : ArgState) : ArgState × Option UsageError :=
  match st.pending with
  | none => (st, none)
  | some (p, v) =>
    let (m, e) := st.matched.accept p v
    ({ st with matched := m, pending := none }, e)

def settled (st : ArgState) : Except Request ArgState :=
  match st.settle with
  | (st, none) => .ok st
  | (_, some e) => .error (.refuse e)

def takeNow (st : ArgState) (p : Param) (v : Option String) : Except Request ArgState := do
  let st ← st.settled
  match p with
  | .help => throw .help
  | .version => throw .version
  | _ =>
    match st.matched.accept p v with
    | (m, none) => return { st with matched := m }
    | (_, some e) => throw (.refuse e)

def await (st : ArgState) (p : Param) : Except Request ArgState := do
  let st ← st.settled
  return { st with pending := some (p, none) }

def positional (st : ArgState) (arg : String) : Except Request ArgState := do
  if st.specSeen then throw (.refuse (.unknownArgument arg none false [] false))
  let st ← st.settled
  return { st with pending := some (.spec, some arg), specSeen := true }

/-- A long option, given without its dashes. -/
def longOption (st : ArgState) (body : String) : Except Request ArgState :=
  let (name, value) := match body.splitOn "=" with
    | name :: rest@(_ :: _) => (name, some ("=".intercalate rest))
    | _ => (body, none)
  match Param.ofLong? name with
  | some p =>
    if p.takesValue then
      match value with
      | some v => st.takeNow p (some v)
      | none => st.await p
    else
      match value with
      | some v =>
        let used := st.matched.order.filter (· != .spec) ++ [p]
        .error (.refuse (.unneededValue p v used st.matched.grouped))
      | none => st.takeNow p none
  | none =>
    let st := st.settle.1
    let similar := mostSimilar name (Param.options.map (·.long))
    let suggested := similar.bind Param.ofLong?
    let used := match suggested with
      | some p => if st.matched.order.contains p then st.matched.order else st.matched.order ++ [p]
      | none => st.matched.order
    let grouped := st.matched.grouped || suggested.any Param.isSetting
    .error (.refuse (.unknownArgument ("--" ++ name) (similar.map ("--" ++ ·)) similar.isNone used
      grouped))

def shortOptions (st : ArgState) : List Char → Except Request ArgState
  | [] => .ok st
  | c :: more =>
    match Param.ofShort? c with
    | none => .error (.refuse (.unknownArgument ("-" ++ c.toString) none true [] false))
    | some p =>
      if !p.takesValue then
        match st.takeNow p none with
        | .ok st => shortOptions st more
        | .error r => .error r
      else
        match more with
        | [] => st.await p
        | '=' :: rest => st.takeNow p (some (String.ofList rest))
        | rest => st.takeNow p (some (String.ofList rest))

/-- Reads one argument. -/
def step (st : ArgState) (arg : String) : Except Request ArgState :=
  if st.trailing then st.positional arg
  else if arg == "--" then .ok { st with trailing := true }
  else if arg.startsWith "--" then st.longOption (String.ofList (arg.toList.drop 2))
  else if arg.startsWith "-" && arg != "-" then st.shortOptions (arg.toList.drop 1)
  else
    match st.pending with
    | some (p, none) => .ok { st with pending := some (p, some arg) }
    | _ => st.positional arg

end ArgState

/-- Reads a whole command line. -/
def parseArgs (args : List String) : Request :=
  let run : Except Request Invocation := do
    let st ← args.foldlM ArgState.step {}
    let st ← st.settled
    let m := st.matched
    match m.spec with
    | none => throw (.refuse (.missingSpec (m.order ++ [.spec])))
    | some spec =>
      return { spec, output := m.output, fragment := m.fragment, indent := m.indent,
               declaration := m.declaration, strict := m.strict, config := m.config }
  match run with
  | .ok inv => .render inv
  | .error r => r

def helpText : String :=
  "Build XML from a declarative JSON markup spec\n\n" ++
  "Usage: mixup [OPTIONS] <SPEC>\n\n" ++
  "Arguments:\n" ++
  "  <SPEC>  Path to the JSON spec, or `-` to read standard input\n\n" ++
  "Options:\n" ++
  "  -o, --output <OUTPUT>  Write the XML here instead of standard output\n" ++
  "      --fragment         Build into a document fragment instead of a document\n" ++
  "      --indent <INDENT>  Pretty-print with this many spaces per level\n" ++
  "      --declaration      Emit an XML declaration\n" ++
  "      --strict           Fail on prefixes with no namespace binding\n" ++
  "  -c, --config <CONFIG>  JSON file with render settings; flags take precedence\n" ++
  "  -h, --help             Print help\n" ++
  "  -V, --version          Print version\n"

def versionText : String :=
  "mixup 0.1.0\n"

end Markup.Cli
