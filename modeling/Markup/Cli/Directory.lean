import Markup.Cli.Run

/-!
# A directory in memory

A host for the program whose files live in memory: a working directory holding files by
their relative paths, `/` between components. Its subdirectories are the ones that hold a
file; the directories above it exist and hold nothing that is known.

A path is walked the way the system walks it, one component at a time from the working
directory (from the top for a path that starts with `/`): empty components are skipped, `.`
stays and `..` goes up, to the directory above even from the working one. Every component
but the last must be a directory, so a file there is "not a directory" and a missing one
"not found". A component longer than `nameMax` bytes, or a whole path of `pathMax` bytes or
more, is "too long". The last component is then read or written:

* reading a directory is refused as "is a directory", and reading a file named with a
  slash after it as "not a directory";
* writing to a directory, to `.` or `..`, or to a name with a slash after it is refused as
  "is a directory"; a new file is made, an old one replaced. A file written above the
  working directory is written where nothing of it is kept.
-/

namespace Markup.Cli

/-- Files by their relative path. -/
structure Directory where
  files : List (String × String)
  deriving DecidableEq, Repr

/-- The longest component of a path, in bytes. -/
def nameMax : Nat := 255

/-- The least length of a path that is refused whole, in bytes. -/
def pathMax : Nat := 4096

/-- A directory reached by a walk: one of the working tree, by its components, or one above
the working directory. -/
inductive Place where
  | tree (cs : List String)
  | above
  deriving DecidableEq, Repr

/-- The directory one up. -/
def Place.up : Place → Place
  | .tree [] => .above
  | .tree cs => .tree cs.dropLast
  | .above => .above

/-- Whether the component is `.` or `..`, which name a directory whatever it holds. -/
def isDots (name : String) : Bool :=
  name == "." || name == ".."

namespace Directory

/-- The components of a path, `.` and empty ones dropped and `..` taking one back. -/
def components (path : String) : List String :=
  (path.splitOn "/").foldl (fun acc c =>
    if c.isEmpty || c == "." then acc
    else if c == ".." && !acc.isEmpty then acc.dropLast
    else acc ++ [c]) []

/-- The path of components. -/
def pathOf (cs : List String) : String :=
  "/".intercalate cs

/-- A directory holding the given files, their paths made plain. -/
def ofFiles (files : List (String × String)) : Directory :=
  ⟨files.map fun f => (pathOf (components f.1), f.2)⟩

/-- The contents of the file at the components, if there is one. -/
def fileAt (d : Directory) (cs : List String) : Option String :=
  (d.files.find? (·.1 == pathOf cs)).map (·.2)

/-- Whether the components name a directory: the working one, or one holding a file. -/
def isDirectoryAt (d : Directory) (cs : List String) : Bool :=
  cs.isEmpty || d.files.any fun f =>
    let fc := components f.1
    fc.length > cs.length && fc.take cs.length == cs

/-- Steps from a directory into a component that must be a directory again. -/
def enter (d : Directory) (here : Place) (name : String) : Except OsError Place :=
  if name == "." then .ok here
  else if name == ".." then .ok here.up
  else if name.utf8ByteSize > nameMax then .error .nameTooLong
  else
    match here with
    | .above => .error .notFound
    | .tree cs =>
      let there := cs ++ [name]
      if (d.fileAt there).isSome then .error .notDirectory
      else if d.isDirectoryAt there then .ok (.tree there)
      else .error .notFound

/-- Walks a path up to its last component: the directory reached, the last component (none
when the path is only slashes), and whether a slash follows it. -/
def locate (d : Directory) (path : String) : Except OsError (Place × Option String × Bool) := do
  if path.utf8ByteSize ≥ pathMax then throw .nameTooLong
  let names := (path.splitOn "/").filter (!·.isEmpty)
  let start : Place := if path.startsWith "/" then .above else .tree []
  let here ← names.dropLast.foldlM d.enter start
  return (here, names.getLast?, path.endsWith "/")

/-- Reads a file. -/
def read (d : Directory) (path : String) : Except OsError String := do
  let (here, last, slash) ← d.locate path
  match last with
  | none => throw .isDirectory
  | some name =>
    if isDots name then throw .isDirectory
    if name.utf8ByteSize > nameMax then throw .nameTooLong
    match here with
    | .above => throw .notFound
    | .tree cs =>
      let there := cs ++ [name]
      match d.fileAt there with
      | some text => if slash then throw .notDirectory else return text
      | none => if d.isDirectoryAt there then throw .isDirectory else throw .notFound

/-- Writes a file, making it or replacing its contents. -/
def write (d : Directory) (path text : String) : Except OsError Directory := do
  let (here, last, slash) ← d.locate path
  match last with
  | none => throw .isDirectory
  | some name =>
    if isDots name || slash then throw .isDirectory
    if name.utf8ByteSize > nameMax then throw .nameTooLong
    match here with
    | .above => return d
    | .tree cs =>
      let there := cs ++ [name]
      if d.isDirectoryAt there then throw .isDirectory
      let key := pathOf there
      if d.files.any (·.1 == key) then
        return ⟨d.files.map fun f => if f.1 == key then (key, text) else f⟩
      else return ⟨d.files ++ [(key, text)]⟩

/-- The files, sorted by path. -/
def listing (d : Directory) : List (String × String) :=
  d.files.mergeSort fun a b => a.1 ≤ b.1

/-- The host whose files are the directory's and whose standard input is `input`. -/
def host (input : String) : Host (StateM Directory) where
  readFile path := do return (← get).read path
  readInput := pure input
  writeFile path text := do
    match (← get).write path text with
    | .ok d => set d; return .ok ()
    | .error e => return .error e

end Directory

/-- Runs the program in a directory held in memory; returns the outcome and the directory
after the run. -/
def runInMemory (args : List String) (input : String) (d : Directory) : Outcome × Directory :=
  (execute (Directory.host input) args).run d

end Markup.Cli
