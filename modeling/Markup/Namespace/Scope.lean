import Markup.Tree.Basic
import Markup.Spec.Flatten
import Markup.Text.Blank

/-!
# Namespace scopes

A scope binds prefixes to namespace URIs; the empty prefix holds the default namespace.
Bindings are kept sorted by prefix. The prefix `xml` resolves to the XML namespace when
nothing binds it.

Two ways make a scope. While building, an element's namespace declarations (`xmlns` and
`xmlns:p` attributes whose values flatten to text) extend the scope it was built in, and
the extended scope is the one its children are built in; a declared URI is trimmed of blank
characters. For an existing node, the scope is gathered from the node and its ancestors,
the nearest binding winning: each element contributes its own prefix and namespace, then
its declarations and the prefixes of its attributes in namespaces, in the order they are
stored.
-/

namespace Markup

/-- The namespace of the `xml` prefix. -/
def xmlNamespace : String := "http://www.w3.org/XML/1998/namespace"

/-- The namespace of namespace declarations. -/
def xmlnsNamespace : String := "http://www.w3.org/2000/xmlns/"

/-- Prefix to namespace bindings, sorted by prefix. -/
structure Scope where
  bindings : List (String × String)
  deriving DecidableEq, Repr

namespace Scope

/-- The scope with no bindings. -/
def empty : Scope := ⟨[]⟩

/-- The URI bound to a prefix. -/
def get? (s : Scope) (p : String) : Option String :=
  (s.bindings.find? (·.1 == p)).map (·.2)

/-- The URI of a prefix; an unbound `xml` gives the XML namespace. -/
def resolve? (s : Scope) (p : String) : Option String :=
  match s.get? p with
  | some uri => some uri
  | none => if p == "xml" then some xmlNamespace else none

/-- Whether a prefix is bound. -/
def contains (s : Scope) (p : String) : Bool :=
  s.bindings.any (·.1 == p)

/-- Puts a binding into sorted bindings, replacing one of the same prefix. -/
def insertSorted (p uri : String) : List (String × String) → List (String × String)
  | [] => [(p, uri)]
  | (q, v) :: rest =>
    if p == q then (p, uri) :: rest
    else if p < q then (p, uri) :: (q, v) :: rest
    else (q, v) :: insertSorted p uri rest

/-- Binds a prefix, replacing an earlier binding. -/
def bind (s : Scope) (p uri : String) : Scope :=
  ⟨insertSorted p uri s.bindings⟩

/-- Binds a prefix only if it is unbound; says whether it did. -/
def bindIfAbsent (s : Scope) (p uri : String) : Scope × Bool :=
  if s.contains p then (s, false) else (s.bind p uri, true)

/-- The number of bindings. -/
def size (s : Scope) : Nat := s.bindings.length

/-- The bindings in prefix order. -/
def toList (s : Scope) : List (String × String) := s.bindings

/-- The scope of a list of bindings, a later one replacing an earlier one of its prefix. -/
def ofList (bs : List (String × String)) : Scope :=
  bs.foldl (fun s b => s.bind b.1 b.2) empty

/-- Extends a scope with the namespace declarations among an element's attributes, in
their order; the flag says that no declaration bound anything. -/
def declare (s : Scope) (attrs : List (String × Spec)) (args : List Spec) : Scope × Bool :=
  attrs.foldl (fun acc a =>
    match Name.declares? a.1, Spec.flatten a.2 args with
    | some p, some uri => (acc.1.bind p (Text.trim uri), false)
    | _, _ => acc) (s, true)

/-- What one element contributes to a gathered scope, nearer bindings kept. -/
def gatherElement (s : Scope) (e : Element) : Scope :=
  let s := match e.ns with
    | some uri => (s.bindIfAbsent (e.prefixName.getD "") uri).1
    | none => s
  e.attrs.foldl (fun s a =>
    match Name.declares? a.name with
    | some p => (s.bindIfAbsent p a.value).1
    | none =>
      match a.ns with
      | some uri => (s.bindIfAbsent (a.prefixName.getD "") uri).1
      | none => s) s

/-- Gathers bindings from a node and its ancestors while they are elements, at most
`fuel` of them. -/
def gatherWithin (t : Tree) : Nat → Scope → NodeId → Scope
  | 0, s, _ => s
  | fuel + 1, s, n =>
    match t.element? n with
    | none => s
    | some e =>
      let s := gatherElement s e
      match t.parent n with
      | some p => gatherWithin t fuel s p
      | none => s

/-- The bindings in effect at a node of a tree. -/
def gather (t : Tree) (n : NodeId) : Scope :=
  gatherWithin t (t.size + 1) empty n

end Scope

end Markup
