import Markup.Tree.Error

/-!
# Trees

A tree is an arena of nodes numbered from 0 in the order they were made. It may hold any
number of documents and detached nodes. Every node records its parent and its children in
order; siblings, first and last children are read off the parent's child list.

Making a node never fails except on a name or data that the tree cannot hold: an element
or instruction target needs a qualified name, CDATA data may not hold `]]>`, and
instruction data may not hold `?>`.
-/

namespace Markup

structure Tree where
  nodes : Array Node
  deriving Repr

namespace Tree

def empty : Tree := ⟨#[]⟩

def size (t : Tree) : Nat := t.nodes.size

/-- The node with this number; a placeholder past the last one. -/
def get (t : Tree) (n : NodeId) : Node :=
  t.nodes.getD n Node.placeholder

def modify (t : Tree) (n : NodeId) (f : Node → Node) : Tree :=
  ⟨t.nodes.modify n f⟩

/-- Adds a detached node with no children; its number is the old size. -/
def alloc (t : Tree) (content : Content) (owner : Option NodeId) : Tree × NodeId :=
  (⟨t.nodes.push ⟨content, owner, none, []⟩⟩, t.size)

/-! ## Reading a tree -/

def nodeType (t : Tree) (n : NodeId) : NodeType :=
  (t.get n).content.type

def parent (t : Tree) (n : NodeId) : Option NodeId :=
  (t.get n).parent

def children (t : Tree) (n : NodeId) : List NodeId :=
  (t.get n).children

def owner (t : Tree) (n : NodeId) : Option NodeId :=
  (t.get n).owner

def firstChild (t : Tree) (n : NodeId) : Option NodeId :=
  (t.children n).head?

def lastChild (t : Tree) (n : NodeId) : Option NodeId :=
  (t.children n).getLast?

/-- The sibling after `n` in a list of siblings; `before?` gives the one before. -/
def after? : List NodeId → NodeId → Option NodeId
  | [], _ => none
  | [_], _ => none
  | a :: b :: rest, n => if a == n then some b else after? (b :: rest) n

def before? : List NodeId → NodeId → Option NodeId
  | [], _ => none
  | [_], _ => none
  | a :: b :: rest, n => if b == n then some a else before? (b :: rest) n

def nextSibling (t : Tree) (n : NodeId) : Option NodeId :=
  match t.parent n with
  | some p => after? (t.children p) n
  | none => none

def prevSibling (t : Tree) (n : NodeId) : Option NodeId :=
  match t.parent n with
  | some p => before? (t.children p) n
  | none => none

def element? (t : Tree) (n : NodeId) : Option Element :=
  match (t.get n).content with
  | .element e => some e
  | _ => none

def attrs (t : Tree) (n : NodeId) : List Attr :=
  match t.element? n with
  | some e => e.attrs
  | none => []

def attribute? (t : Tree) (n : NodeId) (name : String) : Option String :=
  ((t.attrs n).find? fun a => a.name == name).map (·.value)

def attributeNs? (t : Tree) (n : NodeId) (ns localName : String) : Option String :=
  ((t.attrs n).find? fun a => a.ns == some ns && a.localName == localName).map (·.value)

def documentElement (t : Tree) (n : NodeId) : Option NodeId :=
  (t.children n).find? fun c => t.nodeType c == .element

/-- The text and CDATA data below a node, in document order, reading at most `fuel`
levels deep. -/
def textBelow (t : Tree) : Nat → NodeId → String
  | 0, _ => ""
  | fuel + 1, n =>
    match (t.get n).content with
    | .text d | .cdata d => d
    | .document | .fragment | .element _ =>
      String.join ((t.children n).map (textBelow t fuel))
    | _ => ""

def textContent (t : Tree) (n : NodeId) : String :=
  t.textBelow (t.size + 1) n

/-- Whether `a` is `n` or one of its ancestors, looking at most `fuel` parents up. -/
def isAncestorWithin (t : Tree) (a : NodeId) : Nat → NodeId → Bool
  | 0, _ => false
  | fuel + 1, n =>
    if n == a then true
    else
      match t.parent n with
      | some p => isAncestorWithin t a fuel p
      | none => false

def isInclusiveAncestor (t : Tree) (a n : NodeId) : Bool :=
  t.isAncestorWithin a (t.size + 1) n

/-! ## Making nodes -/

def createDocument (t : Tree) : Tree × NodeId :=
  t.alloc .document none

def createFragment (t : Tree) (doc : NodeId) : Tree × NodeId :=
  t.alloc .fragment (some doc)

/-- A new element with no namespace; its whole qualified name is its local name. -/
def createElement (t : Tree) (doc : NodeId) (name : String) : Except TreeError (Tree × NodeId) :=
  if Name.isQName name then .ok (t.alloc (.element ⟨none, name, none, []⟩) (some doc))
  else .error (.invalidCharacter name)

/-- A new element in a namespace; the empty namespace is no namespace. -/
def createElementNs (t : Tree) (doc : NodeId) (ns qualified : String) :
    Except TreeError (Tree × NodeId) :=
  match QName.parse? qualified with
  | some q =>
    let uri := if ns.isEmpty then none else some ns
    .ok (t.alloc (.element ⟨q.prefixName, q.localName, uri, []⟩) (some doc))
  | none => .error (.invalidCharacter qualified)

def createText (t : Tree) (doc : NodeId) (data : String) : Tree × NodeId :=
  t.alloc (.text data) (some doc)

def createComment (t : Tree) (doc : NodeId) (data : String) : Tree × NodeId :=
  t.alloc (.comment data) (some doc)

def occursIn (needle : List Char) : List Char → Bool
  | [] => needle.isEmpty
  | c :: cs => needle.isPrefixOf (c :: cs) || occursIn needle cs

def containsText (s needle : String) : Bool :=
  occursIn needle.toList s.toList

def createCData (t : Tree) (doc : NodeId) (data : String) : Except TreeError (Tree × NodeId) :=
  if containsText data "]]>" then .error (.invalidCharacter data)
  else .ok (t.alloc (.cdata data) (some doc))

def createInstruction (t : Tree) (doc : NodeId) (target data : String) :
    Except TreeError (Tree × NodeId) :=
  if !Name.isQName target then .error (.invalidCharacter target)
  else if containsText data "?>" then .error (.invalidCharacter data)
  else .ok (t.alloc (.instruction target data) (some doc))

end Tree

end Markup
