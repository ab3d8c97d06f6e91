import Markup.Tree.Edit

/-!
# Linked trees

The arena as the program stores it. Every node keeps five links: its parent, its first and
last children, and the siblings before and after it. A child list is read by following
next-sibling links from the first child. `detach` and `linkBefore` rewrite the links around
one node in the order the program writes them, and the insertions and deep cloning are made
of them. The checks read the arena through its `view`: the tree with child lists that its
links describe, with the same node kinds and parents.
-/

namespace Markup

/-- A node as the linked arena stores it. -/
structure LinkNode where
  content : Content
  owner : Option NodeId
  parent : Option NodeId
  firstChild : Option NodeId
  lastChild : Option NodeId
  prevSibling : Option NodeId
  nextSibling : Option NodeId
  deriving DecidableEq, Repr

/-- A node that stands for a missing one: an empty document with no links. -/
def LinkNode.placeholder : LinkNode :=
  ⟨.document, none, none, none, none, none, none⟩

instance : Inhabited LinkNode := ⟨LinkNode.placeholder⟩

/-- An arena of linked nodes, numbered in the order they were made. -/
structure LinkTree where
  nodes : Array LinkNode
  deriving Repr

namespace LinkTree

def empty : LinkTree := ⟨#[]⟩

def size (L : LinkTree) : Nat := L.nodes.size

def get (L : LinkTree) (n : NodeId) : LinkNode :=
  L.nodes.getD n LinkNode.placeholder

def modify (L : LinkTree) (n : NodeId) (f : LinkNode → LinkNode) : LinkTree :=
  ⟨L.nodes.modify n f⟩

/-- Adds a node with no links; its number is the old size. -/
def alloc (L : LinkTree) (content : Content) (owner : Option NodeId) : LinkTree × NodeId :=
  (⟨L.nodes.push ⟨content, owner, none, none, none, none, none⟩⟩, L.size)

def parent (L : LinkTree) (n : NodeId) : Option NodeId := (L.get n).parent

def firstChild (L : LinkTree) (n : NodeId) : Option NodeId := (L.get n).firstChild

def lastChild (L : LinkTree) (n : NodeId) : Option NodeId := (L.get n).lastChild

def prevSibling (L : LinkTree) (n : NodeId) : Option NodeId := (L.get n).prevSibling

def nextSibling (L : LinkTree) (n : NodeId) : Option NodeId := (L.get n).nextSibling

def nodeType (L : LinkTree) (n : NodeId) : NodeType := (L.get n).content.type

def element? (L : LinkTree) (n : NodeId) : Option Element :=
  match (L.get n).content with
  | .element e => some e
  | _ => none

/-- The nodes met following `next` from `start`, at most `fuel` of them. -/
def walk (next : NodeId → Option NodeId) : Nat → Option NodeId → List NodeId
  | 0, _ => []
  | _ + 1, none => []
  | fuel + 1, some n => n :: walk next fuel (next n)

/-- The children of a node, following next-sibling links from its first child. A list of
distinct nodes is never longer than the arena. -/
def children (L : LinkTree) (n : NodeId) : List NodeId :=
  walk L.nextSibling L.size (L.firstChild n)

/-- The tree the readers of the arena show: every node with its content, owner and parent,
and the children its links lead to. -/
def view (L : LinkTree) : Tree :=
  ⟨Array.ofFn fun (i : Fin L.size) =>
    ⟨(L.get i).content, (L.get i).owner, (L.get i).parent, L.children i⟩⟩

/-! ## Links -/

/-- Unlinks a node from its parent and siblings: the sibling before it (or the parent's
first-child link) skips to the one after it, and the sibling after it (or the parent's
last-child link) skips back to the one before. -/
def detach (L : LinkTree) (n : NodeId) : LinkTree :=
  match L.parent n with
  | none => L
  | some p =>
    let prev := L.prevSibling n
    let next := L.nextSibling n
    let L := match prev with
      | some a => L.modify a fun d => { d with nextSibling := next }
      | none => L.modify p fun d => { d with firstChild := next }
    let L := match next with
      | some b => L.modify b fun d => { d with prevSibling := prev }
      | none => L.modify p fun d => { d with lastChild := prev }
    L.modify n fun d => { d with parent := none, prevSibling := none, nextSibling := none }

/-- The node that one linked under `p` before `ref` comes after: the reference's previous
sibling, or the last child. -/
def prevOf (L : LinkTree) (p : NodeId) : Option NodeId → Option NodeId
  | some r => L.prevSibling r
  | none => L.lastChild p

/-- Links a detached node under `p`, before `ref` or last. -/
def linkBefore (L : LinkTree) (p n : NodeId) (ref : Option NodeId) : LinkTree :=
  let prev := L.prevOf p ref
  let L := L.modify n fun d => { d with parent := some p, prevSibling := prev, nextSibling := ref }
  let L := match prev with
    | some a => L.modify a fun d => { d with nextSibling := some n }
    | none => L.modify p fun d => { d with firstChild := some n }
  match ref with
  | some r => L.modify r fun d => { d with prevSibling := some n }
  | none => L.modify p fun d => { d with lastChild := some n }

/-! ## Insertion -/

/-- The DOM's pre-insertion check, read through the arena's node kinds, parents and
children. -/
def validateInsertion (L : LinkTree) (p child : NodeId) (replacing : Option NodeId) :
    Except TreeError Unit :=
  L.view.checkInsertion p child replacing

/-- Refuses `c` unless its parent link is `p`. -/
def ensureChildOf (L : LinkTree) (p c : NodeId) : Except TreeError Unit :=
  if L.parent c == some p then .ok () else .error (.notFound c p)

/-- Moves `child`, or each child of a fragment in order, under `p` before `ref`. -/
def insertNodes (L : LinkTree) (p child : NodeId) (ref : Option NodeId) : LinkTree :=
  if L.nodeType child == .fragment then
    (L.children child).foldl (fun L n => (L.detach n).linkBefore p n ref) L
  else (L.detach child).linkBefore p child ref

def appendChild (L : LinkTree) (p child : NodeId) : Except TreeError LinkTree := do
  L.validateInsertion p child none
  return L.insertNodes p child none

def insertBefore (L : LinkTree) (p child : NodeId) (ref : Option NodeId) :
    Except TreeError LinkTree := do
  if let some r := ref then L.ensureChildOf p r
  L.validateInsertion p child none
  let ref := if ref == some child then L.nextSibling child else ref
  return L.insertNodes p child ref

def replaceChild (L : LinkTree) (p new old : NodeId) : Except TreeError LinkTree := do
  L.ensureChildOf p old
  L.validateInsertion p new (some old)
  if new == old then return L
  let ref := L.nextSibling old
  let ref := if ref == some new then L.nextSibling new else ref
  return (L.detach old).insertNodes p new ref

/-! ## Cloning and attributes -/

/-- Copies a node, and its descendants when `deep`, copying at most `fuel` levels. -/
def cloneWithin (L : LinkTree) (n : NodeId) (deep : Bool) : Nat → LinkTree × NodeId
  | 0 => L.alloc (L.get n).content (L.get n).owner
  | fuel + 1 =>
    let (L', copy) := L.alloc (L.get n).content (L.get n).owner
    if deep then
      (L'.children n).foldl (fun acc c =>
        let (L, cc) := cloneWithin acc.1 c true fuel
        (L.linkBefore copy cc none, copy)) (L', copy)
    else (L', copy)

def cloneNode (L : LinkTree) (n : NodeId) (deep : Bool) : LinkTree × NodeId :=
  L.cloneWithin n deep (L.size + 1)

def modifyElement (L : LinkTree) (n : NodeId) (f : Element → Element) : LinkTree :=
  L.modify n fun d =>
    match d.content with
    | .element e => { d with content := .element (f e) }
    | _ => d

def setAttribute (L : LinkTree) (el : NodeId) (name value : String) :
    Except TreeError LinkTree :=
  if !Name.isQName name then .error (.invalidCharacter name)
  else
    match L.element? el with
    | none => .error (.wrongNodeType (L.nodeType el))
    | some e =>
      let attrs :=
        if e.attrs.any (·.name == name) then
          Tree.updateFirst (·.name == name) (fun a => { a with value := value }) e.attrs
        else e.attrs ++ [⟨none, name, none, value⟩]
      .ok (L.modifyElement el fun e => { e with attrs := attrs })

def setAttributeNs (L : LinkTree) (el : NodeId) (ns qualified value : String) :
    Except TreeError LinkTree :=
  match QName.parse? qualified with
  | none => .error (.invalidCharacter qualified)
  | some q =>
    match L.element? el with
    | none => .error (.wrongNodeType (L.nodeType el))
    | some e =>
      let same (a : Attr) : Bool := a.ns == some ns && a.localName == q.localName
      let attrs :=
        if e.attrs.any same then
          Tree.updateFirst same (fun a => { a with prefixName := q.prefixName, value := value })
            e.attrs
        else e.attrs ++ [⟨q.prefixName, q.localName, some ns, value⟩]
      .ok (L.modifyElement el fun e => { e with attrs := attrs })

/-! ## Making nodes -/

def createDocument (L : LinkTree) : LinkTree × NodeId :=
  L.alloc .document none

def createFragment (L : LinkTree) (doc : NodeId) : LinkTree × NodeId :=
  L.alloc .fragment (some doc)

def createElement (L : LinkTree) (doc : NodeId) (name : String) :
    Except TreeError (LinkTree × NodeId) :=
  if Name.isQName name then .ok (L.alloc (.element ⟨none, name, none, []⟩) (some doc))
  else .error (.invalidCharacter name)

def createElementNs (L : LinkTree) (doc : NodeId) (ns qualified : String) :
    Except TreeError (LinkTree × NodeId) :=
  match QName.parse? qualified with
  | some q =>
    let uri := if ns.isEmpty then none else some ns
    .ok (L.alloc (.element ⟨q.prefixName, q.localName, uri, []⟩) (some doc))
  | none => .error (.invalidCharacter qualified)

def createText (L : LinkTree) (doc : NodeId) (data : String) : LinkTree × NodeId :=
  L.alloc (.text data) (some doc)

def createComment (L : LinkTree) (doc : NodeId) (data : String) : LinkTree × NodeId :=
  L.alloc (.comment data) (some doc)

def createCData (L : LinkTree) (doc : NodeId) (data : String) :
    Except TreeError (LinkTree × NodeId) :=
  if Tree.containsText data "]]>" then .error (.invalidCharacter data)
  else .ok (L.alloc (.cdata data) (some doc))

def createInstruction (L : LinkTree) (doc : NodeId) (target data : String) :
    Except TreeError (LinkTree × NodeId) :=
  if !Name.isQName target then .error (.invalidCharacter target)
  else if Tree.containsText data "?>" then .error (.invalidCharacter data)
  else .ok (L.alloc (.instruction target data) (some doc))

end LinkTree

end Markup
