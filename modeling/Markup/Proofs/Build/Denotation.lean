import Markup.Proofs.Build.Scopes
import Markup.Proofs.Tree.Shape

/-!
# What a spec denotes

A build can be read without a tree to build in, as the shapes of the nodes it puts at the
attachment point (`denoteSpec`). Null, the empty list and a callable past the nesting limit
denote nothing; a list denotes what its items denote, one after the other, whether the build
batches them through a fragment or not; a callable denotes what its result denotes; a node
handle denotes copies of the node, or of a fragment's children, with the shapes they have in the
tree the build starts from (`Tree.copied`); `{}` and an atom denote a text node. An object spec
denotes a comment, CDATA section or processing instruction (`reservedContent`), or an element
(`elementOf`) whose children are what its child specs denote in the scope its declarations
extend.

The denotation fails where a build into an element or a fragment fails, with the same error:
on the object spec's own errors, on an unbound prefix under the strict policy, and on a handle to
a document, which no insertion accepts.

`Refines` says of a run of the build that it fails exactly when such a value is an error, with
that error, and relates its result to the value when both succeed.
-/

namespace Markup

open Relation Markup.Tree

/-! ## Runs that refine a value -/

namespace BuildM

variable {α β γ δ : Type} {t : Tree} {x : BuildM α} {d : Except BuildError β}
  {Q Q' : α → β → Tree → Prop}

/-- The run of `x` from `t` refines `d`: it fails exactly when `d` is an error, with that error,
and when both succeed the run's result and final tree are related to `d`'s value by `Q`. -/
structure Refines (x : BuildM α) (t : Tree) (d : Except BuildError β)
    (Q : α → β → Tree → Prop) : Prop where
  ok : ∀ {a t'}, x t = .ok a t' → ∃ b, d = .ok b ∧ Q a b t'
  error : ∀ {e t'}, x t = .error e t' → d = .error e

namespace Refines

theorem bind {f : α → BuildM γ} {g : β → Except BuildError δ} {R : γ → δ → Tree → Prop}
    (hx : Refines x t d Q) (hf : ∀ a b t₁, Q a b t₁ → Refines (f a) t₁ (g b) R) :
    Refines (x >>= f) t (d >>= g) R where
  ok h := by
    obtain ⟨a, t₁, hxa, hfa⟩ := bind_eq_ok h
    obtain ⟨b, hd, hq⟩ := hx.ok hxa
    obtain ⟨c, hg, hr⟩ := (hf a b t₁ hq).ok hfa
    exact ⟨c, by rw [hd]; exact hg, hr⟩
  error h := by
    rcases bind_eq_error h with hxe | ⟨a, t₁, hxa, hfa⟩
    · rw [hx.error hxe]
      rfl
    · obtain ⟨b, hd, hq⟩ := hx.ok hxa
      rw [hd]
      exact (hf a b t₁ hq).error hfa

theorem mono (h : Refines x t d Q) (hQ : ∀ a b t', Q a b t' → Q' a b t') : Refines x t d Q' :=
  ⟨fun hx => by obtain ⟨b, hd, hq⟩ := h.ok hx; exact ⟨b, hd, hQ _ _ _ hq⟩, h.error⟩

theorem congr {d' : Except BuildError β} (h : Refines x t d Q) (hd : d = d') :
    Refines x t d' Q :=
  hd ▸ h

/-- A run that goes as another run goes refines what that one does. -/
theorem of_eq {y : BuildM α} {t' : Tree} (h : x t = y t') (hy : Refines y t' d Q) :
    Refines x t d Q :=
  ⟨fun hx => hy.ok (h ▸ hx), fun hx => hy.error (h ▸ hx)⟩

/-- A value read off the denotation after the run. -/
theorem map {R : α → γ → Tree → Prop} {g : β → γ} (h : Refines x t d Q)
    (hQ : ∀ a b t', Q a b t' → R a (g b) t') : Refines x t (d >>= fun b => pure (g b)) R where
  ok hx := by
    obtain ⟨b, hd, hq⟩ := h.ok hx
    exact ⟨g b, by rw [hd]; rfl, hQ _ _ _ hq⟩
  error hx := by
    rw [h.error hx]
    rfl

end Refines

theorem refines_pure (a : α) (b : β) (h : Q a b t) : Refines (pure a) t (.ok b) Q where
  ok hx := by
    cases hx
    exact ⟨b, rfl, h⟩
  error hx := by cases hx

theorem refines_throw (e : BuildError) : Refines (throw e : BuildM α) t (.error e : Except BuildError β) Q where
  ok hx := by cases hx
  error hx := by
    cases hx
    rfl

theorem refines_check (r : Except BuildError α) :
    Refines (check r) t r fun a b t' => a = b ∧ t' = t where
  ok hx := by
    obtain ⟨hr, rfl⟩ := check_eq_ok hx
    exact ⟨_, hr, rfl, rfl⟩
  error hx := by
    cases r with
    | ok a => cases hx
    | error e =>
      cases hx
      rfl

/-- A run that fails refines its error. -/
theorem refines_of_eq_error {e : BuildError} {t' : Tree} (h : x t = .error e t') :
    Refines x t (.error e : Except BuildError β) Q :=
  ⟨fun hx => (by rw [h] at hx; cases hx), fun hx => (by rw [h] at hx; cases hx; rfl)⟩

/-- A run that succeeds refines a value that is no error. -/
theorem refines_of_ok {b : β} (hok : ∃ a t', x t = .ok a t') (h : ∀ a t', x t = .ok a t' → Q a b t') :
    Refines x t (.ok b) Q := by
  refine ⟨fun hx => ⟨b, rfl, h _ _ hx⟩, fun hx => ?_⟩
  obtain ⟨a, t', hxa⟩ := hok
  rw [hxa] at hx
  cases hx

end BuildM

/-! ## What a node handle denotes -/

/-- What a deep copy of `n` puts in place, as shapes: copies of a fragment's children, or of the
node itself. No insertion takes a document. -/
def Tree.copied (t : Tree) (n : NodeId) : Except BuildError (List Shape) :=
  if t.nodeType n = .document then .error (.tree (.hierarchy .documentInserted))
  else .ok ((t.incoming n).map t.shape)

/-! ## Element records -/

namespace Element

/-- The record after an attribute is set by qualified name: the first attribute of that name
takes the value, or a record with no prefix and no namespace is added (see
`Tree.setAttribute`). -/
def withAttribute (e : Element) (name value : String) : Element :=
  { e with attrs :=
    if e.attrs.any (·.name == name) then
      updateFirst (·.name == name) (fun a => { a with value := value }) e.attrs
    else e.attrs ++ [⟨none, name, none, value⟩] }

/-- The record after an attribute named `q` is set in the namespace `ns`: the record of that
namespace and local name takes the prefix and the value, or a new record is added (see
`Tree.setAttributeNs`). -/
def withAttributeNs (e : Element) (ns : String) (q : QName) (value : String) : Element :=
  let same (a : Attr) : Bool := a.ns == some ns && a.localName == q.localName
  { e with attrs :=
    if e.attrs.any same then
      updateFirst same (fun a => { a with prefixName := q.prefixName, value := value }) e.attrs
    else e.attrs ++ [⟨q.prefixName, q.localName, some ns, value⟩] }

/-- The record after one attribute entry of an object spec is set, as `setAttrEntry` sets it. A
declaration goes in the namespace of declarations, a prefixed name in its prefix's namespace,
and any other name by itself; an unbound prefix fails under the strict policy, and an entry whose
key is no qualified name or whose value has no text is left out. -/
def withEntry (scope : Scope) (args : List Spec) (policy : Policy) (e : Element)
    (entry : String × Spec) : Except BuildError Element :=
  match QName.parse? entry.1, Spec.flatten entry.2 args with
  | some q, some text =>
    if q.isDeclaration then .ok (e.withAttributeNs xmlnsNamespace q text)
    else
      match q.prefixName with
      | some ap =>
        match scope.namespaceOf? ap with
        | some uri => .ok (e.withAttributeNs uri q text)
        | none =>
          if policy == .strict then .error (.unboundPrefix ap entry.1)
          else .ok (e.withAttribute entry.1 text)
      | none => .ok (e.withAttribute entry.1 text)
  | _, _ => .ok e

/-- The record of a new element named `qualified`, with no attributes yet: in a namespace, its
prefix and local name are read off the name (see `Tree.createElementNs`); in none, the whole
name is its local name (see `Tree.createElement`). -/
def fresh (qualified : String) : Option String → Except TreeError Element
  | some ns =>
    match QName.parse? qualified with
    | some q => .ok ⟨q.prefixName, q.localName, if ns.isEmpty then none else some ns, []⟩
    | none => .error (.invalidCharacter qualified)
  | none =>
    if Name.isQName qualified then .ok ⟨none, qualified, none, []⟩
    else .error (.invalidCharacter qualified)

end Element

/-- The record of the element made from a tag name and attribute entries in a scope, with the
scope for its children, as `materialize` makes it. -/
def elementOf (tag : TagName) (scope : Scope) (attrs : List (String × Spec)) (args : List Spec)
    (policy : Policy) : Except BuildError (Element × Scope) := do
  let (qualified, pfx) ← tag.resolve
  let scope := (scope.declare attrs args).1
  let e ← match scope.namespaceOf? pfx with
    | some uri => (Element.fresh qualified (some uri)).mapError .tree
    | none => do
      if !pfx.isEmpty && policy == .strict then throw (.unboundPrefix pfx qualified)
      (Element.fresh qualified none).mapError .tree
  let e ← (Name.sortEntries attrs).foldlM (Element.withEntry scope args policy) e
  pure (e, scope)

/-! ## Object specs -/

/-- The content of the comment, CDATA section or processing instruction an object spec makes,
from the designator's children and the object's attribute entries, as `buildReserved` makes it. -/
def reservedContent (kind : Reserved) (children : List Spec) (attrs : List (String × Spec))
    (args : List Spec) : Except BuildError Content :=
  match kind with
  | .comment => .ok (.comment (Spec.flattenItems children args))
  | .cdata =>
    let data := Spec.flattenItems children args
    if containsText data "]]>" then .error (.tree (.invalidCharacter data)) else .ok (.cdata data)
  | .instruction =>
    match children with
    | [] => .error .missingInstructionTarget
    | first :: rest =>
      match (Spec.flatten first args).filter (!·.isEmpty) with
      | none => .error .missingInstructionTarget
      | some target =>
        let data := Text.trim (Spec.flattenEntries attrs args "=" ++ " " ++
          Spec.flattenItems rest args)
        if !Name.isQName target then .error (.tree (.invalidCharacter target))
        else if containsText data "?>" then .error (.tree (.invalidCharacter data))
        else .ok (.instruction target data)
  | .doctype => .error .doctypeUnsupported

/-- What an object spec makes before its children: a node that holds none, or an element with
its tag name, its attribute entries and its child specs. -/
inductive ObjectHead where
  | leaf (content : Content)
  | element (tag : TagName) (attrs : List (String × Spec)) (children : List Spec)

/-- What an object spec makes, or why it makes nothing, as `buildObject` reads it. -/
def objectHead (entries : List (String × Spec)) (args : List Spec) :
    Except BuildError ObjectHead :=
  match findDesignator none entries with
  | .error e => .error e
  | .ok none =>
    match entries with
    | [(key, value)] =>
      match QName.parse? key with
      | some q =>
        if q.isDeclaration then .error (.missingDesignator [key])
        else .ok (.element (.qualified key) [] value.children)
      | none => .error (.missingDesignator [key])
    | _ => .error (.missingDesignator (entries.map (·.1)))
  | .ok (some (_, d, value)) =>
    match d with
    | .reserved kind =>
      (reservedContent kind value.children (attributeEntries entries) args).map .leaf
    | .element =>
      match value.children with
      | [] => .error .missingTagName
      | first :: rest => (tagOf first args).map fun tag => .element tag (attributeEntries entries) rest
    | .named name => .ok (.element (.qualified name) (attributeEntries entries) value.children)

/-- The child specs of an object are smaller than the object. -/
theorem sizeOf_lt_of_objectHead {entries : List (String × Spec)} {args : List Spec}
    {tag : TagName} {attrs : List (String × Spec)} {children : List Spec}
    (h : objectHead entries args = .ok (.element tag attrs children)) :
    sizeOf children < sizeOf entries := by
  -- the children are those of an entry's value, or all but the first of them
  have hval : ∀ {k : String} {v : Spec}, (k, v) ∈ entries → sizeOf v.children < sizeOf entries := by
    intro k v hmem
    have h1 := sizeOf_lt_of_mem_entries hmem
    have h2 := sizeOf_children_le v
    omega
  unfold objectHead at h
  split at h
  · cases h
  · split at h
    · split at h
      · split at h
        · cases h
        · cases h
          exact hval (List.mem_singleton_self _)
      · cases h
    · cases h
  · rename_i key d value hfind
    have hmem : (key, value) ∈ entries := (mem_of_findDesignator hfind).resolve_left (by simp)
    split at h
    · cases hr : reservedContent _ _ _ _ <;> rw [hr] at h <;> cases h
    · split at h
      · cases h
      · rename_i first rest hc
        cases ht : tagOf first args <;> rw [ht] at h <;> cases h
        have := hval hmem
        rw [hc] at this
        simp only [List.cons.sizeOf_spec] at this
        omega
    · cases h
      exact hval hmem

/-! ## The denotation -/

mutual

/-- The shapes a build of `s` in the scope `scope` puts at the attachment point, node handles
read in `T`; calls nest at most `fuel` deep. -/
def denoteSpec (policy : Policy) (args : List Spec) (T : Tree) (fuel : Nat) (scope : Scope) :
    Spec → Except BuildError (List Shape)
  | .null => .ok []
  | .list items => denoteList policy args T fuel scope items
  | .callable body =>
    match fuel with
    | 0 => .ok []
    | fuel + 1 => denoteSpec policy args T fuel scope (Spec.call body args)
  | .node n => T.copied n
  | .mapping [] => .ok [.node (.text "") []]
  | .mapping (e :: es) => denoteObject policy args T fuel scope (e :: es)
  | .bool b => .ok [.node (.text (Spec.boolText b)) []]
  | .number n => .ok [.node (.text n.toText) []]
  | .string s => .ok [.node (.text s) []]
termination_by s => (fuel, sizeOf s)

/-- What the items of a list denote, one after the other. -/
def denoteList (policy : Policy) (args : List Spec) (T : Tree) (fuel : Nat) (scope : Scope) :
    List Spec → Except BuildError (List Shape)
  | [] => .ok []
  | x :: rest => do
    let a ← denoteSpec policy args T fuel scope x
    let b ← denoteList policy args T fuel scope rest
    pure (a ++ b)
termination_by items => (fuel, sizeOf items)

/-- What an object spec denotes: its leaf, or its element with what its child specs denote in
the element's scope. -/
def denoteObject (policy : Policy) (args : List Spec) (T : Tree) (fuel : Nat) (scope : Scope)
    (entries : List (String × Spec)) : Except BuildError (List Shape) :=
  match h : objectHead entries args with
  | .error e => .error e
  | .ok (.leaf c) => .ok [.node c []]
  | .ok (.element tag attrs children) =>
    have := sizeOf_lt_of_objectHead h
    do
      let (e, inner) ← elementOf tag scope attrs args policy
      let kids ← denoteList policy args T fuel inner children
      pure [.node (.element e) kids]
termination_by (fuel, sizeOf entries)
decreasing_by exact Prod.Lex.right _ this

end

section Unfold

variable {policy : Policy} {args : List Spec} {T : Tree} {fuel : Nat} {scope : Scope}

theorem denoteList_nil : denoteList policy args T fuel scope [] = .ok [] := by
  rw [denoteList]

theorem denoteList_cons (x : Spec) (rest : List Spec) :
    denoteList policy args T fuel scope (x :: rest) =
      (denoteSpec policy args T fuel scope x >>= fun a =>
        denoteList policy args T fuel scope rest >>= fun b => pure (a ++ b)) := by
  rw [denoteList]

/-- A list of one item denotes what the item does. -/
theorem denoteList_singleton (x : Spec) :
    denoteList policy args T fuel scope [x] = denoteSpec policy args T fuel scope x := by
  rw [denoteList_cons, denoteList_nil]
  cases denoteSpec policy args T fuel scope x <;> simp [bind, Except.bind, pure, Except.pure]

variable {entries : List (String × Spec)}

theorem denoteObject_of_error {e : BuildError} (h : objectHead entries args = .error e) :
    denoteObject policy args T fuel scope entries = .error e := by
  rw [denoteObject]
  split <;> rename_i h' <;> rw [h] at h' <;> cases h'
  rfl

theorem denoteObject_of_leaf {c : Content} (h : objectHead entries args = .ok (.leaf c)) :
    denoteObject policy args T fuel scope entries = .ok [.node c []] := by
  rw [denoteObject]
  split <;> rename_i h' <;> rw [h] at h' <;> cases h'
  rfl

theorem denoteObject_of_element {tag : TagName} {attrs : List (String × Spec)}
    {children : List Spec} (h : objectHead entries args = .ok (.element tag attrs children)) :
    denoteObject policy args T fuel scope entries =
      (elementOf tag scope attrs args policy >>= fun b =>
        denoteList policy args T fuel b.2 children >>= fun kids => pure [.node (.element b.1) kids]) := by
  rw [denoteObject]
  split <;> rename_i h' <;> rw [h] at h' <;> cases h'
  rfl

end Unfold

end Markup
