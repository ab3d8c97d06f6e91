import Markup.Build.Attach
import Markup.Namespace.Scope

/-!
# Making elements

An element is made from its tag name, the scope it is built in and its attribute entries.
The namespace declarations among the attributes extend the scope first, so the element and
its attributes see them, and the extended scope is the one its children are built in.

The element takes the namespace bound to its prefix (the default namespace when it has
none); an empty URI counts as no binding. A prefixed name with no binding is an error under
the strict policy and an element without namespace, named as written, under the permissive
one. Attributes are set in the attribute key order: a declaration in the namespace of
declarations, a prefixed attribute in its prefix's namespace (or, permissively, with no
namespace), an unprefixed one by name. An attribute whose value flattens to nothing is left
out.
-/

namespace Markup

/-- What to do with a prefix that no namespace is bound to. -/
inductive Policy where
  /-- Keep the name as written, with no namespace. -/
  | permissive
  /-- Fail the build. -/
  | strict
  deriving DecidableEq, Repr

/-- The name of a policy. -/
def Policy.name : Policy → String
  | .permissive => "permissive"
  | .strict => "strict"

/-- How an element's name was written. -/
inductive TagName where
  /-- `prefix:local` or `local` as one string. -/
  | qualified (name : String)
  /-- A prefix, possibly none or empty, and a local part. -/
  | pair (prefixName : Option String) (localName : String)
  deriving DecidableEq, Repr

/-- The qualified name and the prefix (empty for none) of a valid tag name. -/
def TagName.resolve : TagName → Except BuildError (String × String)
  | .qualified name =>
    match QName.parse? name with
    | some q => .ok (name, q.prefixOrEmpty)
    | none => .error (.invalidName name)
  | .pair p l =>
    let p := p.getD ""
    let qualified := if p.isEmpty then l else p ++ ":" ++ l
    if !Name.isNCName l || !(p.isEmpty || Name.isNCName p) then .error (.invalidName qualified)
    else .ok (qualified, p)

/-- The namespace a prefix resolves to in a scope, an empty URI counting as none. -/
def Scope.namespaceOf? (s : Scope) (p : String) : Option String :=
  (s.resolve? p).filter (!·.isEmpty)

namespace BuildM

/-- Fails the build with the error of a failed check. -/
def check {α : Type} : Except BuildError α → BuildM α
  | .ok a => pure a
  | .error e => throw e

end BuildM

/-- Sets one attribute entry on a new element. -/
def setAttrEntry (el : NodeId) (scope : Scope) (args : List Spec) (policy : Policy)
    (entry : String × Spec) : BuildM Unit := do
  let (key, value) := entry
  match QName.parse? key, Spec.flatten value args with
  | some q, some text =>
    if q.isDeclaration then BuildM.edit (·.setAttributeNs el xmlnsNamespace key text)
    else
      match q.prefixName with
      | some ap =>
        match scope.namespaceOf? ap with
        | some uri => BuildM.edit (·.setAttributeNs el uri key text)
        | none =>
          if policy == .strict then throw (.unboundPrefix ap key)
          BuildM.edit (·.setAttribute el key text)
      | none => BuildM.edit (·.setAttribute el key text)
  | _, _ => pure ()

/-- Makes a detached element with its attributes; returns it with the scope for its
children. -/
def materialize (doc : NodeId) (tag : TagName) (scope : Scope) (attrs : List (String × Spec))
    (args : List Spec) (policy : Policy) : BuildM (NodeId × Scope) := do
  let (qualified, pfx) ← BuildM.check tag.resolve
  let scope := (scope.declare attrs args).1
  let el ← match scope.namespaceOf? pfx with
    | some uri => BuildM.make (·.createElementNs doc uri qualified)
    | none => do
      if !pfx.isEmpty && policy == .strict then throw (.unboundPrefix pfx qualified)
      BuildM.make (·.createElement doc qualified)
  (Name.sortEntries attrs).forM (setAttrEntry el scope args policy)
  return (el, scope)

end Markup
