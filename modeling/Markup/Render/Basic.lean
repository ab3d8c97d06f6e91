import Markup.Render.Config
import Markup.Build.Interpret
import Markup.Xml.Writer
import Markup.Json.Reader

/-!
# Rendering

Rendering builds a spec into a new tree and writes it as XML: a new document is made
(node 0), and with the `fragment` root a fragment of it (node 1); the spec is built into
that node with the settings' policy and the node is written with the settings' indent and
declaration.
-/

namespace Markup

/-- Why a render failed. -/
inductive RenderError where
  /-- The spec text is not JSON. -/
  | json (e : Json.SyntaxError)
  /-- The build failed. -/
  | build (e : BuildError)
  /-- A file could not be read or written. -/
  | io (detail : String)
  /-- The settings could not be read. -/
  | config (detail : String)

/-- The text of a render error. -/
def RenderError.message : RenderError → String
  | .json e => "Spec is not valid JSON: " ++ e.message
  | .build e => "Build failed: " ++ e.message
  | .io d => "I/O error: " ++ d
  | .config d => "Configuration is invalid: " ++ d

namespace RenderConfig

/-- The writing options of the settings. -/
def writeOptions (c : RenderConfig) : Xml.Options :=
  ⟨c.indent, c.declaration⟩

/-- Builds a spec with arguments into a new document, or a fragment of it; returns the
tree and the node built into. -/
def buildInto (c : RenderConfig) (spec : Spec) (args : List Spec) :
    Except BuildError (Tree × NodeId) :=
  let (t, doc) := Tree.empty.createDocument
  let (t, root) := match c.root with
    | .document => (t, doc)
    | .fragment => t.createFragment doc
  match (build (.options { parent := some root, doc := some doc }) spec args c.policy).run t with
  | .ok _ t => .ok (t, root)
  | .error e _ => .error e

/-- Renders a spec with arguments. -/
def renderSpec (c : RenderConfig) (spec : Spec) (args : List Spec) : Except RenderError String :=
  match c.buildInto spec args with
  | .ok (t, root) => .ok (Xml.serialize t root c.writeOptions)
  | .error e => .error (.build e)

/-- Renders a JSON value as a spec. -/
def renderValue (c : RenderConfig) (v : Json) : Except RenderError String :=
  c.renderSpec (Spec.ofJson v) []

/-- Renders JSON text as a spec. -/
def renderText (c : RenderConfig) (source : String) : Except RenderError String :=
  match Json.parse source with
  | .ok v => c.renderValue v
  | .error e => .error (.json e)

end RenderConfig

end Markup
