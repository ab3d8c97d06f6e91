import Markup.Tree.Edit
import Markup.Build.Error

/-!
# Attaching built nodes

A build runs in `BuildM`: it changes a tree and may fail, and a failed build keeps the
nodes it made before failing (they stay detached, or where they were put).

Attaching a node relative to a reference returns the node that now stands at the
attachment point: for `parent`, the reference's last child; for `before`, the reference's
previous sibling; for `after`, its next sibling; for `replace`, the last node put in its
place. A fragment's children are attached in its stead, so the node returned is one of them.
When nothing stands there, the reference (for `replace`, its old parent) is returned.
-/

namespace Markup

/-- A build step: it changes the tree and may fail, keeping the tree it failed with. -/
abbrev BuildM := EStateM BuildError Tree

namespace BuildM

/-- Runs a tree edit; a refused edit fails the build and changes nothing. -/
def edit (f : Tree → Except TreeError Tree) : BuildM Unit := fun t =>
  match f t with
  | .ok t' => .ok () t'
  | .error e => .error (.tree e) t

/-- Runs a tree step that makes a node and may be refused. -/
def make (f : Tree → Except TreeError (Tree × NodeId)) : BuildM NodeId := fun t =>
  match f t with
  | .ok (t', n) => .ok n t'
  | .error e => .error (.tree e) t

/-- Runs a tree step that makes a node. -/
def alloc (f : Tree → Tree × NodeId) : BuildM NodeId := fun t =>
  let (t', n) := f t
  .ok n t'

/-- Reads the tree. -/
def read {α : Type} (f : Tree → α) : BuildM α := fun t => .ok (f t) t

end BuildM

namespace Mode

/-- The parent of the reference, which the mode needs. -/
def parentOf (mode : Mode) (ref : NodeId) : BuildM NodeId := do
  match ← BuildM.read (·.parent ref) with
  | some p => pure p
  | none => throw (.detachedReference mode)

/-- Puts a node (or a fragment's children) in place relative to the reference and returns
the node now at the attachment point. -/
def attach (mode : Mode) (node ref : NodeId) : BuildM NodeId := do
  match mode with
  | .parent =>
    BuildM.edit (·.appendChild ref node)
    return (← BuildM.read (·.lastChild ref)).getD ref
  | .before =>
    let p ← mode.parentOf ref
    BuildM.edit (·.insertBefore p node (some ref))
    return (← BuildM.read (·.prevSibling ref)).getD ref
  | .after =>
    let p ← mode.parentOf ref
    let next ← BuildM.read (·.nextSibling ref)
    BuildM.edit (·.insertBefore p node next)
    return (← BuildM.read (·.nextSibling ref)).getD ref
  | .replace =>
    let last ← BuildM.read fun t =>
      if t.nodeType node == .fragment then t.lastChild node else some node
    let p ← mode.parentOf ref
    BuildM.edit (·.replaceChild p node ref)
    return last.getD p

end Mode

end Markup
