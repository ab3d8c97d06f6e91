import Markup.Name.Char
import Markup.Name.Basic
import Markup.Name.Key
import Markup.Text.Blank
import Markup.Text.Escaped
import Markup.Decimal.Binary
import Markup.Decimal.Shortest
import Markup.Decimal.Layout
import Markup.Json.Number
import Markup.Json.Value
import Markup.Json.Reader
import Markup.Spec.Basic
import Markup.Spec.Flatten
import Markup.Spec.Calls
import Markup.Tree.Node
import Markup.Tree.Error
import Markup.Tree.Basic
import Markup.Tree.Edit
import Markup.Tree.Linked
import Markup.Xml.Writer
import Markup.Namespace.Scope
import Markup.Build.Error
import Markup.Build.Attach
import Markup.Build.Target
import Markup.Build.Element
import Markup.Build.Interpret
import Markup.Render.Config
import Markup.Render.Basic
import Markup.Render.ConfigText
import Markup.Cli.Similar
import Markup.Cli.Args
import Markup.Cli.Run
import Markup.Cli.Directory
import Markup.Main
import Markup.Proofs.Tree.Access
import Markup.Proofs.Tree.WellFormed
import Markup.Proofs.Tree.Insertion
import Markup.Proofs.Tree.Clone
import Markup.Proofs.Tree.Reachable
import Markup.Proofs.Tree.Links
import Markup.Proofs.Tree.Arena
import Markup.Proofs.Tree.Copy
import Markup.Proofs.Name.Qualified
import Markup.Proofs.Xml.Tags
import Markup.Proofs.Build.Steps
import Markup.Proofs.Build.Element
import Markup.Proofs.Build.Coherent
import Markup.Proofs.Render.Namespaces
import Markup.Proofs.Spec.Reorder
import Markup.Proofs.Build.Reorder
import Markup.Proofs.Tree.Shift
import Markup.Proofs.Build.Shift
import Markup.Proofs.Render.Root
import Markup.Proofs.Spec.Calls
import Markup.Proofs.Spec.Unfold
import Markup.Proofs.Build.Unfold
import Markup.Proofs.Build.Gathered
import Markup.Proofs.Build.Attachment
import Markup.Proofs.Build.Ends
import Markup.Proofs.Build.Landing
import Markup.Proofs.Build.Outcome
import Markup.Proofs.Build.Scopes
import Markup.Proofs.Tree.Shape
import Markup.Proofs.Build.Denotation
import Markup.Proofs.Build.Fuel
import Markup.Proofs.Build.Placement
import Markup.Proofs.Build.Refinement
import Markup.Proofs.Build.Adequacy
import Markup.Proofs.Tree.Names
import Markup.Proofs.Xml.Attributes
import Markup.Proofs.Namespace.Union
