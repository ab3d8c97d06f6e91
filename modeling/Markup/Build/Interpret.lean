import Markup.Build.Target
import Markup.Build.Element

/-!
# Building specs

The interpreter of specs. Building a spec at a position (a mode, a reference and the
document new nodes belong to) in a namespace scope:

* null builds nothing and returns the reference;
* an empty list builds nothing, a one-item list builds its item, and a longer list builds
  its items into a new fragment that is attached in one step (if it got any children);
* a callable builds its result for the arguments;
* a node handle attaches a deep copy of the node;
* an atom or `{}` attaches a text node;
* a mapping is an object spec: with a designator it builds a comment, CDATA section,
  processing instruction or element; a mapping with one qualified-name key that is not a
  declaration is an element of that name whose children are the value (the shorthand);
  any other mapping has no designator and fails.

An element is attached before its children are built; they are built as a list under it,
in the scope its declarations extend, and the result of building them is returned.

Each build returns the node at the attachment point (see `Mode.attach`). Calls may nest
`fuel` deep; a call past that builds nothing.
-/

namespace Markup

/-- Where the node built from the current spec goes. -/
structure Position where
  mode : Mode
  reference : NodeId
  doc : NodeId

/-- The position that appends to a node. -/
def Position.inside (n doc : NodeId) : Position :=
  ⟨.parent, n, doc⟩

/-- Finds the designator of an object spec, with its key and value; a second designator
is an error naming the first key and the second. -/
def findDesignator (found : Option (String × Designator × Spec)) :
    List (String × Spec) → Except BuildError (Option (String × Designator × Spec))
  | [] => .ok found
  | (k, v) :: rest =>
    match Designator.ofKey? k with
    | some d =>
      match found with
      | some (first, _, _) => .error (.ambiguousDesignators first k)
      | none => findDesignator (some (k, d, v)) rest
    | none => findDesignator found rest

theorem mem_of_findDesignator {found : Option (String × Designator × Spec)}
    {es : List (String × Spec)} {k : String} {d : Designator} {v : Spec}
    (h : findDesignator found es = .ok (some (k, d, v))) :
    found = some (k, d, v) ∨ (k, v) ∈ es := by
  induction es generalizing found with
  | nil => simp [findDesignator] at h; exact .inl h
  | cons e rest ih =>
    obtain ⟨k', v'⟩ := e
    simp only [findDesignator] at h
    split at h
    · split at h
      · simp at h
      · rcases ih h with h' | h'
        · simp only [Option.some.injEq, Prod.mk.injEq] at h'
          obtain ⟨rfl, -, rfl⟩ := h'
          exact .inr (by simp)
        · exact .inr (List.mem_cons_of_mem _ h')
    · rcases ih h with h' | h'
      · exact .inl h'
      · exact .inr (List.mem_cons_of_mem _ h')

/-- The entries of an object spec whose keys are attribute names. -/
def attributeEntries (es : List (String × Spec)) : List (String × Spec) :=
  es.filter fun e =>
    match KeyRole.ofKey e.1 with
    | .attribute _ => true
    | _ => false

/-- The tag name written as an element designator's first child: a two-item list gives
a prefix (none when empty) and a local part, anything else a qualified name. -/
def tagOf (first : Spec) (args : List Spec) : Except BuildError TagName :=
  match first with
  | .list [p, l] =>
    match Spec.flatten l args with
    | some localName => .ok (.pair ((Spec.flatten p args).filter (!·.isEmpty)) localName)
    | none => .error .missingTagName
  | other =>
    match Spec.flatten other args with
    | some s => .ok (.qualified s)
    | none => .error .missingTagName

/-- Attaches a new text node. -/
def buildText (pos : Position) (text : String) : BuildM NodeId := do
  let n ← BuildM.alloc (·.createText pos.doc text)
  pos.mode.attach n pos.reference

/-- Builds a comment, CDATA section or processing instruction from the designator's
children and the object's attribute entries. -/
def buildReserved (pos : Position) (kind : Reserved) (children : List Spec)
    (attrs : List (String × Spec)) (args : List Spec) : BuildM NodeId := do
  let n ← match kind with
    | .comment => BuildM.alloc (·.createComment pos.doc (Spec.flattenItems children args))
    | .cdata => BuildM.make (·.createCData pos.doc (Spec.flattenItems children args))
    | .instruction =>
      match children with
      | [] => throw .missingInstructionTarget
      | first :: rest =>
        match (Spec.flatten first args).filter (!·.isEmpty) with
        | none => throw .missingInstructionTarget
        | some target =>
          let pairs := Spec.flattenEntries attrs args "="
          let data := Text.trim (pairs ++ " " ++ Spec.flattenItems rest args)
          BuildM.make (·.createInstruction pos.doc target data)
    | .doctype => throw .doctypeUnsupported
  pos.mode.attach n pos.reference

/-- Makes an element, attaches it, and returns it, the node at the attachment point and the
scope for its children. -/
def placeElement (pos : Position) (scope : Scope) (tag : TagName) (attrs : List (String × Spec))
    (args : List Spec) (policy : Policy) : BuildM (NodeId × NodeId × Scope) := do
  let (el, inner) ← materialize pos.doc tag scope attrs args policy
  let attached ← pos.mode.attach el pos.reference
  return (el, attached, inner)

theorem sizeOf_children_le (v : Spec) : sizeOf v.children ≤ sizeOf v + 2 := by
  cases v <;> simp [Spec.children] <;> omega

theorem sizeOf_lt_of_mem_entries {k : String} {v : Spec} {es : List (String × Spec)}
    (h : (k, v) ∈ es) : sizeOf v + 3 ≤ sizeOf es := by
  induction es with
  | nil => simp at h
  | cons e rest ih =>
    rcases List.mem_cons.1 h with h' | h'
    · subst h'
      have : 1 ≤ sizeOf rest := by
        cases rest with
        | nil => simp
        | cons _ _ => simp only [List.cons.sizeOf_spec]; omega
      simp
      omega
    · have := ih h'
      simp
      omega

mutual

/-- Builds a spec at a position in a scope. -/
def buildSpec (policy : Policy) (args : List Spec) (fuel : Nat) (pos : Position) (scope : Scope) :
    Spec → BuildM NodeId
  | .null => pure pos.reference
  | .list items => buildList policy args fuel pos scope items
  | .callable body =>
    match fuel with
    | 0 => pure pos.reference
    | fuel + 1 => buildSpec policy args fuel pos scope (Spec.call body args)
  | .node n => do
    let copy ← BuildM.alloc (·.cloneNode n true)
    pos.mode.attach copy pos.reference
  | .mapping [] => buildText pos ""
  | .mapping (e :: es) => buildObject policy args fuel pos scope (e :: es)
  | .bool b => buildText pos (Spec.boolText b)
  | .number n => buildText pos n.toText
  | .string s => buildText pos s
termination_by s => (fuel, sizeOf s)

/-- Builds a list of specs: nothing, one item directly, or a batch through a fragment. -/
def buildList (policy : Policy) (args : List Spec) (fuel : Nat) (pos : Position) (scope : Scope) :
    List Spec → BuildM NodeId
  | [] => pure pos.reference
  | [x] => buildSpec policy args fuel pos scope x
  | x :: y :: rest => do
    let frag ← BuildM.alloc (·.createFragment pos.doc)
    let inner := Position.inside frag pos.doc
    let _ ← buildSpec policy args fuel inner scope x
    buildItems policy args fuel inner scope (y :: rest)
    if (← BuildM.read (·.firstChild frag)).isNone then return pos.reference
    pos.mode.attach frag pos.reference
termination_by items => (fuel, sizeOf items)

/-- Builds each spec of a batch in order. -/
def buildItems (policy : Policy) (args : List Spec) (fuel : Nat) (pos : Position) (scope : Scope) :
    List Spec → BuildM Unit
  | [] => pure ()
  | x :: rest => do
    let _ ← buildSpec policy args fuel pos scope x
    buildItems policy args fuel pos scope rest
termination_by items => (fuel, sizeOf items)

/-- Builds an object spec. -/
def buildObject (policy : Policy) (args : List Spec) (fuel : Nat) (pos : Position) (scope : Scope)
    (entries : List (String × Spec)) : BuildM NodeId := do
  match h : findDesignator none entries with
  | .error e => throw e
  | .ok none =>
    match he : entries with
    | [(key, value)] =>
      have hmem : (key, value) ∈ entries := by simp [he]
      match QName.parse? key with
      | some q =>
        if q.isDeclaration then throw (.missingDesignator [key])
        let (el, attached, inner) ← placeElement pos scope (.qualified key) [] args policy
        match hc : value.children with
        | [] => return attached
        | c :: cs => buildList policy args fuel (Position.inside el pos.doc) inner (c :: cs)
      | none => throw (.missingDesignator [key])
    | _ => throw (.missingDesignator (entries.map (·.1)))
  | .ok (some (key, d, value)) =>
    have hmem : (key, value) ∈ entries := (mem_of_findDesignator h).resolve_left (by simp)
    let attrs := attributeEntries entries
    match d with
    | .reserved kind => buildReserved pos kind value.children attrs args
    | .element =>
      match hc : value.children with
      | [] => throw .missingTagName
      | first :: rest => do
        let tag ← BuildM.check (tagOf first args)
        let (el, attached, inner) ← placeElement pos scope tag attrs args policy
        match hr : rest with
        | [] => return attached
        | c :: cs => buildList policy args fuel (Position.inside el pos.doc) inner (c :: cs)
    | .named name =>
      let (el, attached, inner) ← placeElement pos scope (.qualified name) attrs args policy
      match hc : value.children with
      | [] => return attached
      | c :: cs => buildList policy args fuel (Position.inside el pos.doc) inner (c :: cs)
termination_by (fuel, sizeOf entries)
decreasing_by
  all_goals
    apply Prod.Lex.right
    have h1 := sizeOf_lt_of_mem_entries hmem
    have h2 := sizeOf_children_le value
    simp_all
    omega

end

/-- Builds a normalized request: the scope is gathered at the anchor, and calls may nest as
deep as the spec and arguments allow a finishing evaluation to go. -/
def run (req : Request) (policy : Policy) : BuildM NodeId := do
  let scope ← BuildM.read (Scope.gather · req.anchor)
  buildSpec policy req.args (Spec.callDepth req.spec req.args) ⟨req.mode, req.reference, req.doc⟩
    scope req.spec

/-- Builds a spec at a target. -/
def build (target : Target) (spec : Spec) (args : List Spec) (policy : Policy) :
    BuildM NodeId := do
  let req ← normalize target spec args
  run req policy

end Markup
