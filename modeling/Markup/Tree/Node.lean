import Markup.Name.Basic

/-!
# Nodes

The seven kinds of node in a markup tree, the attribute records of an element, and what a
tree stores for each node: its content, the document that owns it, its parent and its
children in order.
-/

namespace Markup

/-- Nodes of a tree are numbered in the order they were made. -/
abbrev NodeId := Nat

/-- The kinds of node. -/
inductive NodeType where
  | document
  | fragment
  | element
  | text
  | comment
  | cdata
  | instruction
  deriving DecidableEq, Repr

namespace NodeType

/-- The name of a node kind in messages. -/
def name : NodeType → String
  | .document => "document"
  | .fragment => "document fragment"
  | .element => "element"
  | .text => "text"
  | .comment => "comment"
  | .cdata => "CDATA section"
  | .instruction => "processing instruction"

/-- Documents, fragments and elements hold children; the other kinds do not. -/
def isContainer : NodeType → Bool
  | .document | .fragment | .element => true
  | _ => false

end NodeType

/-- An attribute as an element stores it. -/
structure Attr where
  prefixName : Option String
  localName : String
  ns : Option String
  value : String
  deriving DecidableEq, Repr

/-- The qualified name of an attribute: `prefix:local`, or the local name alone. -/
def Attr.name (a : Attr) : String :=
  match a.prefixName with
  | some p => p ++ ":" ++ a.localName
  | none => a.localName

/-- An element's name, namespace and attributes. -/
structure Element where
  prefixName : Option String
  localName : String
  ns : Option String
  attrs : List Attr
  deriving DecidableEq, Repr

/-- The tag name of an element: `prefix:local`, or the local name alone. -/
def Element.tagName (e : Element) : String :=
  match e.prefixName with
  | some p => p ++ ":" ++ e.localName
  | none => e.localName

/-- What a node is, with its own data. -/
inductive Content where
  | document
  | fragment
  | element (e : Element)
  | text (data : String)
  | comment (data : String)
  | cdata (data : String)
  | instruction (target data : String)
  deriving DecidableEq, Repr

/-- The kind of a node's content. -/
def Content.type : Content → NodeType
  | .document => .document
  | .fragment => .fragment
  | .element _ => .element
  | .text _ => .text
  | .comment _ => .comment
  | .cdata _ => .cdata
  | .instruction _ _ => .instruction

/-- A node as the tree stores it. -/
structure Node where
  content : Content
  /-- The document that made the node; none for a document. -/
  owner : Option NodeId
  parent : Option NodeId
  children : List NodeId
  deriving DecidableEq, Repr

/-- A node that stands for a missing one: an empty document with no links. -/
def Node.placeholder : Node :=
  ⟨.document, none, none, []⟩

instance : Inhabited Node := ⟨Node.placeholder⟩

end Markup
