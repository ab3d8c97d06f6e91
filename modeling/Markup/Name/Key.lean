import Markup.Name.Basic

/-!
# Keys of a spec object

A key of a spec object either designates what the object builds, names an attribute, or
is dropped. A key that starts with `#` is a designator: `#`, `#elem`, `#element` and `#tag`
designate an element whose tag name is the first child, six reserved keys designate the
other node kinds, and any other `#name` designates an element called `name`. A key that is
a qualified name is an attribute; every other key is ignored.

Attribute keys are ordered with namespace declarations first and then by their text, which
compares code points and so agrees with comparing their UTF-8 bytes.
-/

namespace Markup

/-- The node kinds, other than elements, that a reserved designator builds. -/
inductive Reserved where
  | comment
  | cdata
  | doctype
  | instruction
  deriving DecidableEq, Repr

/-- What a `#` key designates. -/
inductive Designator where
  /-- An element whose tag name is the first child. -/
  | element
  /-- A comment, CDATA section, document type or processing instruction. -/
  | reserved (kind : Reserved)
  /-- An element named by the rest of the key. -/
  | named (name : String)
  deriving DecidableEq, Repr

/-- The role of a key in a spec object. -/
inductive KeyRole where
  | designator (d : Designator)
  | attribute (q : QName)
  | ignored
  deriving DecidableEq, Repr

namespace Designator

/-- The keys that designate an element named by its first child. -/
def elementKeys : List String := ["#", "#elem", "#element", "#tag"]

/-- The reserved designator a key spells, if any. -/
def reservedOf? : String → Option Reserved
  | "#comment" => some .comment
  | "#cdata" => some .cdata
  | "#doctype" => some .doctype
  | "#dtd" => some .doctype
  | "#pi" => some .instruction
  | "#processing-instruction" => some .instruction
  | _ => none

/-- What a key designates; nothing for a key that does not start with `#`. -/
def ofKey? (key : String) : Option Designator :=
  match key.toList with
  | '#' :: rest =>
    if key ∈ elementKeys then some .element
    else
      match reservedOf? key with
      | some kind => some (.reserved kind)
      | none => some (.named (String.ofList rest))
  | _ => none

end Designator

namespace KeyRole

/-- The role of a key: a designator, else an attribute when it is a qualified name. -/
def ofKey (key : String) : KeyRole :=
  match Designator.ofKey? key with
  | some d => .designator d
  | none =>
    match QName.parse? key with
    | some q => .attribute q
    | none => .ignored

end KeyRole

namespace Name

/-- The attribute key order: a namespace declaration comes before any other key, and keys
of the same group compare by their text. -/
def compareKeys (a b : String) : Ordering :=
  match isDeclaration a, isDeclaration b with
  | true, false => .lt
  | false, true => .gt
  | _, _ => compare a b

/-- Sorts keys in the attribute key order, keeping the given order among equal keys. -/
def sortKeys (keys : List String) : List String :=
  keys.mergeSort fun a b => compareKeys a b != .gt

/-- Sorts key and value pairs by key in the attribute key order, stably. -/
def sortEntries {α : Type} (entries : List (String × α)) : List (String × α) :=
  entries.mergeSort fun a b => compareKeys a.1 b.1 != .gt

end Name

end Markup
