import Markup.Json.Value
import Markup.Tree.Node

/-!
# Specs

A spec describes markup to build: null builds nothing, an atom (boolean, number, string)
builds a text node, a list builds its items as siblings, a mapping builds an element,
comment, CDATA section or processing instruction, a node handle builds a deep copy of an
existing node, and a callable builds whatever it returns for the build's arguments.

A callable is kept as a template: a spec that may hold the placeholders `arg i` (the `i`-th
argument, or null past the last) and `args` (the list of all arguments). Calling it
replaces the placeholders and leaves a callable nested in the template as it is, so its own
placeholders wait for its own call.
-/

namespace Markup

/-- The body of a callable. -/
inductive Template where
  | null
  | bool (b : Bool)
  | number (n : Number)
  | string (s : String)
  | list (items : List Template)
  | mapping (entries : List (String × Template))
  | node (id : NodeId)
  | callable (body : Template)
  | arg (index : Nat)
  | args

inductive Spec where
  | null
  | bool (b : Bool)
  | number (n : Number)
  | string (s : String)
  | list (items : List Spec)
  | mapping (entries : List (String × Spec))
  | callable (body : Template)
  | node (id : NodeId)

mutual

/-- The spec that a callable with this body returns for the arguments. -/
def Template.instantiate (args : List Spec) : Template → Spec
  | .null => .null
  | .bool b => .bool b
  | .number n => .number n
  | .string s => .string s
  | .list items => .list (Template.instantiateItems args items)
  | .mapping entries => .mapping (Template.instantiateEntries args entries)
  | .node id => .node id
  | .callable body => .callable body
  | .arg i => args.getD i .null
  | .args => .list args

def Template.instantiateItems (args : List Spec) : List Template → List Spec
  | [] => []
  | t :: ts => t.instantiate args :: Template.instantiateItems args ts

def Template.instantiateEntries (args : List Spec) :
    List (String × Template) → List (String × Spec)
  | [] => []
  | (k, t) :: ts => (k, t.instantiate args) :: Template.instantiateEntries args ts

end

mutual

/-- The number of callables in a template, nested ones included. -/
def Template.callables : Template → Nat
  | .list items => Template.itemsCallables items
  | .mapping entries => Template.entriesCallables entries
  | .callable body => body.callables + 1
  | _ => 0

def Template.itemsCallables : List Template → Nat
  | [] => 0
  | t :: ts => t.callables + Template.itemsCallables ts

def Template.entriesCallables : List (String × Template) → Nat
  | [] => 0
  | (_, t) :: ts => t.callables + Template.entriesCallables ts

end

namespace Spec

def kind : Spec → String
  | .null => "null"
  | .bool _ => "boolean"
  | .number _ => "number"
  | .string _ => "string"
  | .list _ => "list"
  | .mapping _ => "mapping"
  | .callable _ => "callable"
  | .node _ => "node"

/-- A designator's value seen as children: a list's items, or the value as the only one. -/
def children : Spec → List Spec
  | .list items => items
  | s => [s]

def isNull : Spec → Bool
  | .null => true
  | _ => false

def call (body : Template) (args : List Spec) : Spec :=
  body.instantiate args

mutual

/-- The number of callables in a spec, those nested in templates included. -/
def callables : Spec → Nat
  | .list items => itemsCallables items
  | .mapping entries => entriesCallables entries
  | .callable body => body.callables + 1
  | _ => 0

def itemsCallables : List Spec → Nat
  | [] => 0
  | s :: ss => s.callables + itemsCallables ss

def entriesCallables : List (String × Spec) → Nat
  | [] => 0
  | (_, s) :: ss => s.callables + entriesCallables ss

end

/-- How many calls may nest while evaluating a spec with arguments. Every callable met on
a chain of nested calls has the body of one written in the spec or in the arguments, and a
chain that meets one body twice never ends, so their number bounds every chain that does end;
this allows more. -/
def callDepth (spec : Spec) (args : List Spec) : Nat :=
  2 * (spec.callables + itemsCallables args) + 2

mutual

/-- A JSON value as a spec: objects become mappings, arrays lists. -/
def ofJson : Json → Spec
  | .null => .null
  | .bool b => .bool b
  | .number n => .number n
  | .string s => .string s
  | .array items => .list (ofJsonItems items)
  | .object entries => .mapping (ofJsonEntries entries)

def ofJsonItems : List Json → List Spec
  | [] => []
  | j :: js => ofJson j :: ofJsonItems js

def ofJsonEntries : List (String × Json) → List (String × Spec)
  | [] => []
  | (k, j) :: js => (k, ofJson j) :: ofJsonEntries js

end

end Spec

end Markup
