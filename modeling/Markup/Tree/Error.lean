import Markup.Tree.Node
import Markup.Decimal.Layout

/-!
# Tree errors

Why an operation on a tree was refused. Every refused operation leaves the tree as it was.
-/

namespace Markup

/-- Why an insertion would break the shape of a tree. -/
inductive Hierarchy where
  | notContainer (found : NodeType)
  | documentInserted
  /-- The node is the new parent or one of its ancestors. -/
  | intoItself
  | documentContent (found : NodeType)
  | secondElement
  deriving DecidableEq, Repr

def Hierarchy.detail : Hierarchy → String
  | .notContainer t => "a " ++ t.name ++ " cannot have children"
  | .documentInserted => "a document cannot be inserted"
  | .intoItself => "a node cannot be inserted into itself or its descendants"
  | .documentContent t => "a document cannot contain a " ++ t.name ++ " node"
  | .secondElement => "a document can only have one document element"

inductive TreeError where
  | hierarchy (h : Hierarchy)
  | notFound (child parent : NodeId)
  /-- A name, or CDATA or instruction data, that the tree cannot hold. -/
  | invalidCharacter (text : String)
  | wrongNodeType (found : NodeType)
  deriving DecidableEq, Repr

def TreeError.message : TreeError → String
  | .hierarchy h => "Hierarchy request error: " ++ h.detail
  | .notFound c p =>
    "Node not found: node " ++ Decimal.natDigits c ++ " is not a child of node " ++
      Decimal.natDigits p
  | .invalidCharacter s => "Invalid character in name '" ++ s ++ "'"
  | .wrongNodeType t => "Wrong node type: expected element, found " ++ t.name

end Markup
