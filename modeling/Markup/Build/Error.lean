import Markup.Tree.Error

/-!
# Build errors

The four ways a built node joins a tree, and why a build fails.
-/

namespace Markup

/-- Where a built node goes relative to a reference node: as its last child, its previous or
next sibling, or in its place, the reference then detached. -/
inductive Mode where
  | parent
  | before
  | after
  | replace
  deriving DecidableEq, Repr

def Mode.name : Mode → String
  | .parent => "parent"
  | .before => "before"
  | .after => "after"
  | .replace => "replace"

/-- Why a build failed. -/
inductive BuildError where
  | unsupportedInput (kind : String)
  | conflictingBinding (mode existing : Mode)
  | notANode (key kind : String)
  | notElementOrDocument (mode : Mode) (found : NodeType)
  | detachedReference (mode : Mode)
  | ambiguousDesignators (first second : String)
  /-- A spec object with no designator that is not an element shorthand. -/
  | missingDesignator (keys : List String)
  | missingTagName
  | invalidName (name : String)
  | unboundPrefix (prefixName name : String)
  | doctypeUnsupported
  | missingInstructionTarget
  | tree (e : TreeError)
  deriving DecidableEq, Repr

def BuildError.message : BuildError → String
  | .unsupportedInput k => "Not sure what to do with a " ++ k
  | .conflictingBinding m e => "Cannot bind to " ++ m.name ++ ": " ++ e.name ++ " is already present"
  | .notANode key k => key ++ ": " ++ k ++ " is not a node"
  | .notElementOrDocument m t => m.name ++ " must be a document or element, not a " ++ t.name
  | .detachedReference m => m.name ++ " node must have a parent node"
  | .ambiguousDesignators a b => "Ambiguous designators " ++ a ++ " and " ++ b
  | .missingDesignator keys => "Spec object has no designator (keys: " ++ ", ".intercalate keys ++ ")"
  | .missingTagName => "Element designator has no tag name"
  | .invalidName n => "Invalid element name '" ++ n ++ "'"
  | .unboundPrefix p n => "No namespace bound for prefix '" ++ p ++ "' in '" ++ n ++ "'"
  | .doctypeUnsupported => "DTDs are not implemented"
  | .missingInstructionTarget => "Processing instructions need a target"
  | .tree e => "Tree error: " ++ e.message

end Markup
