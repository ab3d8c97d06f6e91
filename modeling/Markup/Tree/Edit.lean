import Markup.Tree.Basic

/-!
# Editing a tree

Insertion follows the DOM's pre-insertion check. Inserting a node under a parent fails when
the parent holds no children, when the node is a document, when the node is the parent or
one of its ancestors, or when the parent is a document that would then hold text, a CDATA
section or a second element. A fragment is never inserted itself: its children move, in
order, and it is left empty. A failed operation leaves the tree unchanged.

Deep cloning copies a node and, in order, its descendants; copies get new numbers in
document order and share the owner of what they copy. Setting an attribute by qualified
name stores it with no prefix and no namespace; setting one by namespace replaces the
record of the same namespace and local name.
-/

namespace Markup.Tree

/-- Inserts a number into a child list before `ref`, or at the end. -/
def insertInto (xs : List NodeId) (n : NodeId) : Option NodeId → List NodeId
  | none => xs ++ [n]
  | some r => xs.take (xs.idxOf r) ++ n :: xs.drop (xs.idxOf r)

/-- Unlinks a node from its parent. -/
def detach (t : Tree) (n : NodeId) : Tree :=
  match t.parent n with
  | none => t
  | some p =>
    let t := t.modify p fun node => { node with children := node.children.erase n }
    t.modify n fun node => { node with parent := none }

/-- Links a detached node under `p`, before `ref` or last. -/
def linkBefore (t : Tree) (p n : NodeId) (ref : Option NodeId) : Tree :=
  let t := t.modify p fun node => { node with children := insertInto node.children n ref }
  t.modify n fun node => { node with parent := some p }

/-- Refuses an insertion of `child` under `p` that would break the shape of the tree;
`replacing` is a child of `p` that the insertion takes the place of. -/
def checkInsertion (t : Tree) (p child : NodeId) (replacing : Option NodeId) :
    Except TreeError Unit := do
  let pt := t.nodeType p
  if !pt.isContainer then throw (.hierarchy (.notContainer pt))
  let ct := t.nodeType child
  if ct == .document then throw (.hierarchy .documentInserted)
  if t.isInclusiveAncestor child p then throw (.hierarchy .intoItself)
  if pt != .document then return ()
  let incoming := if ct == .fragment then t.children child else [child]
  match incoming.find? (fun c => t.nodeType c == .text || t.nodeType c == .cdata) with
  | some c => throw (.hierarchy (.documentContent (t.nodeType c)))
  | none => pure ()
  let elements := (incoming.filter fun c => t.nodeType c == .element).length
  let existing := ((t.children p).filter fun c =>
    some c != replacing && c != child && t.nodeType c == .element).length
  if elements + existing > 1 then throw (.hierarchy .secondElement)

/-- Refuses `c` unless it is a child of `p`. -/
def checkChild (t : Tree) (p c : NodeId) : Except TreeError Unit :=
  if t.parent c == some p then .ok () else .error (.notFound c p)

/-- Moves `child`, or each child of a fragment in order, under `p` before `ref`. -/
def insertNodes (t : Tree) (p child : NodeId) (ref : Option NodeId) : Tree :=
  if t.nodeType child == .fragment then
    (t.children child).foldl (fun t n => (t.detach n).linkBefore p n ref) t
  else (t.detach child).linkBefore p child ref

/-- Appends `child` (or a fragment's children) to the children of `p`. -/
def appendChild (t : Tree) (p child : NodeId) : Except TreeError Tree := do
  t.checkInsertion p child none
  return t.insertNodes p child none

/-- Inserts `child` (or a fragment's children) under `p` before `ref`, or last. -/
def insertBefore (t : Tree) (p child : NodeId) (ref : Option NodeId) : Except TreeError Tree := do
  if let some r := ref then t.checkChild p r
  t.checkInsertion p child none
  let ref := if ref == some child then t.nextSibling child else ref
  return t.insertNodes p child ref

/-- Puts `new` (or a fragment's children) in the place of the child `old` of `p`, which is
detached. -/
def replaceChild (t : Tree) (p new old : NodeId) : Except TreeError Tree := do
  t.checkChild p old
  t.checkInsertion p new (some old)
  if new == old then return t
  let ref := t.nextSibling old
  let ref := if ref == some new then t.nextSibling new else ref
  return (t.detach old).insertNodes p new ref

/-- Copies a node, and its descendants when `deep`, copying at most `fuel` levels. -/
def cloneWithin (t : Tree) (n : NodeId) (deep : Bool) : Nat → Tree × NodeId
  | 0 => t.alloc (t.get n).content (t.get n).owner
  | fuel + 1 =>
    let node := t.get n
    let (t, copy) := t.alloc node.content node.owner
    if deep then
      node.children.foldl (fun acc c =>
        let (t, cc) := cloneWithin acc.1 c true fuel
        (t.linkBefore copy cc none, copy)) (t, copy)
    else (t, copy)

/-- A detached copy of a node, with copies of its descendants when `deep`. -/
def cloneNode (t : Tree) (n : NodeId) (deep : Bool) : Tree × NodeId :=
  t.cloneWithin n deep (t.size + 1)

/-- Replaces the first item that satisfies `p`. -/
def updateFirst {α : Type} (p : α → Bool) (f : α → α) : List α → List α
  | [] => []
  | a :: as => if p a then f a :: as else a :: updateFirst p f as

/-- Changes the element data of a node that is an element. -/
def modifyElement (t : Tree) (n : NodeId) (f : Element → Element) : Tree :=
  t.modify n fun node =>
    match node.content with
    | .element e => { node with content := .element (f e) }
    | _ => node

/-- Sets an attribute by qualified name: the value of the first attribute with that name
changes, or a record with no prefix and no namespace is added. -/
def setAttribute (t : Tree) (el : NodeId) (name value : String) : Except TreeError Tree :=
  if !Name.isQName name then .error (.invalidCharacter name)
  else
    match t.element? el with
    | none => .error (.wrongNodeType (t.nodeType el))
    | some e =>
      let attrs :=
        if e.attrs.any (·.name == name) then
          updateFirst (·.name == name) (fun a => { a with value := value }) e.attrs
        else e.attrs ++ [⟨none, name, none, value⟩]
      .ok (t.modifyElement el fun e => { e with attrs := attrs })

/-- Sets an attribute in a namespace: the record with that namespace and local name takes
the new prefix and value, or a new record is added. -/
def setAttributeNs (t : Tree) (el : NodeId) (ns qualified value : String) :
    Except TreeError Tree :=
  match QName.parse? qualified with
  | none => .error (.invalidCharacter qualified)
  | some q =>
    match t.element? el with
    | none => .error (.wrongNodeType (t.nodeType el))
    | some e =>
      let same (a : Attr) : Bool := a.ns == some ns && a.localName == q.localName
      let attrs :=
        if e.attrs.any same then
          updateFirst same (fun a => { a with prefixName := q.prefixName, value := value }) e.attrs
        else e.attrs ++ [⟨q.prefixName, q.localName, some ns, value⟩]
      .ok (t.modifyElement el fun e => { e with attrs := attrs })

end Markup.Tree
