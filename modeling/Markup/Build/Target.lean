import Markup.Build.Attach
import Markup.Spec.Basic

/-!
# Build targets

A build is asked for with a target: a node, meaning "append to it", or options. Options
bind at most one of the modes `parent`, `before`, `after` and `replace` to a reference,
which must be a document or an element; they may also carry the spec, the arguments, a
`pseudo` node whose ancestry gives the starting namespace scope, and the document that new
nodes belong to.

Normalizing a target gives a request: the mode, the reference, the anchor whose gathered
namespaces start the build, the document, the spec and the arguments. With no mode bound
the build goes into the given document, or into a new one.
-/

namespace Markup

/-- The options of a build. -/
structure Options where
  parent : Option NodeId := none
  before : Option NodeId := none
  after : Option NodeId := none
  replace : Option NodeId := none
  /-- A spec that takes the place of the one given with the options. -/
  spec : Option Spec := none
  /-- Arguments that take the place of those given with the options. -/
  args : Option (List Spec) := none
  pseudo : Option NodeId := none
  doc : Option NodeId := none

namespace Options

/-- Options that bind one mode to a reference. -/
def bound (mode : Mode) (n : NodeId) : Options :=
  match mode with
  | .parent => { parent := some n }
  | .before => { before := some n }
  | .after => { after := some n }
  | .replace => { replace := some n }

/-- The bound modes, in the order parent, before, after, replace. -/
def bindings (o : Options) : List (Mode × NodeId) :=
  [(Mode.parent, o.parent), (.before, o.before), (.after, o.after), (.replace, o.replace)].filterMap
    fun b => b.2.map fun n => (b.1, n)

end Options

/-- What a build is asked to build into. -/
inductive Target where
  | node (n : NodeId)
  | options (o : Options)

namespace Target

/-- Sets one option from a mapping entry: null counts as absent, node options need a
node, `spec` and `args` carry specs, and other keys are ignored. -/
def setOption (o : Options) (key : String) (v : Spec) : Except BuildError Options :=
  let node (set : NodeId → Options) : Except BuildError Options :=
    match v with
    | .node n => .ok (set n)
    | other => .error (.notANode key other.kind)
  if v.isNull then .ok o
  else
    match key with
    | "parent" => node fun n => { o with parent := some n }
    | "before" => node fun n => { o with before := some n }
    | "after" => node fun n => { o with after := some n }
    | "replace" => node fun n => { o with replace := some n }
    | "pseudo" => node fun n => { o with pseudo := some n }
    | "doc" => node fun n => { o with doc := some n }
    | "spec" => .ok { o with spec := some v }
    | "args" => .ok { o with args := some v.children }
    | _ => .ok o

/-- Reads a target from a spec: a node handle, or a mapping of options. -/
def ofSpec : Spec → Except BuildError Target
  | .node n => .ok (.node n)
  | .mapping entries =>
    (entries.foldlM (fun o e => setOption o e.1 e.2) {}).map .options
  | other => .error (.unsupportedInput other.kind)

end Target

/-- A build with every default filled in. -/
structure Request where
  mode : Mode
  /-- The node the output is attached relative to. -/
  reference : NodeId
  /-- The node whose ancestry gives the starting namespace scope. -/
  anchor : NodeId
  /-- The document new nodes belong to. -/
  doc : NodeId
  spec : Spec
  args : List Spec

/-- The document of a node: itself if it is one, else its owner, else a new document. -/
def documentOf (n : NodeId) : BuildM NodeId := do
  let t ← get
  if t.nodeType n == .document then return n
  match t.owner n with
  | some d => return d
  | none => BuildM.alloc (·.createDocument)

/-- Checks the bindings in order: a second one conflicts with the first, and each
reference must be able to hold children. -/
def checkBindings (t : Tree) : Option Mode → List (Mode × NodeId) → Except BuildError (Option (Mode × NodeId))
  | _, [] => .ok none
  | seen, (m, n) :: rest =>
    match seen with
    | some existing => .error (.conflictingBinding m existing)
    | none =>
      if !(t.nodeType n).isContainer then .error (.notElementOrDocument m (t.nodeType n))
      else
        match checkBindings t (some m) rest with
        | .ok none => .ok (some (m, n))
        | other => other

/-- Fills in a build's defaults; may make a new document. -/
def normalize (target : Target) (spec : Spec) (args : List Spec) : BuildM Request := do
  match target with
  | .node n =>
    let doc ← documentOf n
    return ⟨.parent, n, n, doc, spec, args⟩
  | .options o =>
    let bound ← match checkBindings (← get) none o.bindings with
      | .ok b => pure b
      | .error e => throw e
    let (spec, args) := match o.spec with
      | some carried =>
        match spec with
        | .list items => (carried, items)
        | _ => (carried, args)
      | none => (spec, args)
    let args := o.args.getD args
    match bound with
    | some (mode, ref) =>
      let doc ← match o.doc with
        | some d => pure d
        | none => documentOf ref
      let anchor ← match o.pseudo, mode with
        | some p, _ => pure p
        | none, .parent => pure ref
        | none, _ => mode.parentOf ref
      return ⟨mode, ref, anchor, doc, spec, args⟩
    | none =>
      let doc ← match o.doc with
        | some d => pure d
        | none => BuildM.alloc (·.createDocument)
      return ⟨.parent, doc, o.pseudo.getD doc, doc, spec, args⟩

end Markup
