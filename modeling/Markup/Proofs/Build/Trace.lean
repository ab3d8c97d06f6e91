import Markup.Proofs.Build.Unfold

/-!
# Builds that record the elements they make

`buildSpecTraced` is the interpreter of `Markup.Build.Interpret` with a record of what it makes:
each element placed, in the order it was made, with the scope `materialize` returned for it, the
one its children are built in. Erasing the record gives the interpreter back
(`buildSpecTraced_erase`), so any fact about the record is a fact about what a build does.
-/

namespace Markup

/-- The elements a build made, each with the scope its children were built in, in the order they
were made. -/
abbrev Made := List (NodeId × Scope)

/-- A build step that makes no element, with its empty record. -/
def untraced (x : BuildM NodeId) : BuildM (NodeId × Made) :=
  x >>= fun r => pure (r, [])

/-- Attaches a batch's fragment once its items are built, unless it stayed empty. -/
def attachBatch (pos : Position) (frag : NodeId) : BuildM NodeId := do
  if (← BuildM.read (·.firstChild frag)).isNone then return pos.reference
  pos.mode.attach frag pos.reference

mutual

/-- `buildSpec`, recording the elements it makes. -/
def buildSpecTraced (policy : Policy) (args : List Spec) (fuel : Nat) (pos : Position)
    (scope : Scope) : Spec → BuildM (NodeId × Made)
  | .null => pure (pos.reference, [])
  | .list items => buildListTraced policy args fuel pos scope items
  | .callable body =>
    match fuel with
    | 0 => pure (pos.reference, [])
    | fuel + 1 => buildSpecTraced policy args fuel pos scope (Spec.call body args)
  | .node n => untraced do
    let copy ← BuildM.alloc (·.cloneNode n true)
    pos.mode.attach copy pos.reference
  | .mapping [] => untraced (buildText pos "")
  | .mapping (e :: es) => buildObjectTraced policy args fuel pos scope (e :: es)
  | .bool b => untraced (buildText pos (Spec.boolText b))
  | .number n => untraced (buildText pos n.toText)
  | .string s => untraced (buildText pos s)
termination_by s => (fuel, sizeOf s)

/-- `buildList`, recording the elements it makes. -/
def buildListTraced (policy : Policy) (args : List Spec) (fuel : Nat) (pos : Position)
    (scope : Scope) : List Spec → BuildM (NodeId × Made)
  | [] => pure (pos.reference, [])
  | [x] => buildSpecTraced policy args fuel pos scope x
  | x :: y :: rest => do
    let frag ← BuildM.alloc (·.createFragment pos.doc)
    let first ← buildSpecTraced policy args fuel (Position.inside frag pos.doc) scope x
    let more ← buildItemsTraced policy args fuel (Position.inside frag pos.doc) scope (y :: rest)
    let r ← attachBatch pos frag
    return (r, first.2 ++ more)
termination_by items => (fuel, sizeOf items)

/-- `buildItems`, recording the elements it makes. -/
def buildItemsTraced (policy : Policy) (args : List Spec) (fuel : Nat) (pos : Position)
    (scope : Scope) : List Spec → BuildM Made
  | [] => pure []
  | x :: rest => do
    let first ← buildSpecTraced policy args fuel pos scope x
    let more ← buildItemsTraced policy args fuel pos scope rest
    return first.2 ++ more
termination_by items => (fuel, sizeOf items)

/-- `buildObject`, recording the elements it makes: a placed element comes before those made
under it. -/
def buildObjectTraced (policy : Policy) (args : List Spec) (fuel : Nat) (pos : Position)
    (scope : Scope) (entries : List (String × Spec)) : BuildM (NodeId × Made) := do
  match h : findDesignator none entries with
  | .error e => throw e
  | .ok none =>
    match he : entries with
    | [(key, value)] =>
      have hmem : (key, value) ∈ entries := by simp [he]
      match QName.parse? key with
      | some q =>
        if q.isDeclaration then throw (.missingDesignator [key])
        let r ← placeElement pos scope (.qualified key) [] args policy
        match hc : value.children with
        | [] => return (r.2.1, [(r.1, r.2.2)])
        | c :: cs => do
          let kids ← buildListTraced policy args fuel (Position.inside r.1 pos.doc) r.2.2 (c :: cs)
          return (kids.1, (r.1, r.2.2) :: kids.2)
      | none => throw (.missingDesignator [key])
    | _ => throw (.missingDesignator (entries.map (·.1)))
  | .ok (some (key, d, value)) =>
    have hmem : (key, value) ∈ entries := (mem_of_findDesignator h).resolve_left (by simp)
    match d with
    | .reserved kind => untraced (buildReserved pos kind value.children (attributeEntries entries) args)
    | .element =>
      match hc : value.children with
      | [] => throw .missingTagName
      | first :: rest => do
        let tag ← BuildM.check (tagOf first args)
        let r ← placeElement pos scope tag (attributeEntries entries) args policy
        match hr : rest with
        | [] => return (r.2.1, [(r.1, r.2.2)])
        | c :: cs => do
          let kids ← buildListTraced policy args fuel (Position.inside r.1 pos.doc) r.2.2 (c :: cs)
          return (kids.1, (r.1, r.2.2) :: kids.2)
    | .named name =>
      let r ← placeElement pos scope (.qualified name) (attributeEntries entries) args policy
      match hc : value.children with
      | [] => return (r.2.1, [(r.1, r.2.2)])
      | c :: cs => do
        let kids ← buildListTraced policy args fuel (Position.inside r.1 pos.doc) r.2.2 (c :: cs)
        return (kids.1, (r.1, r.2.2) :: kids.2)
termination_by (fuel, sizeOf entries)
decreasing_by
  all_goals
    apply Prod.Lex.right
    have h1 := sizeOf_lt_of_mem_entries hmem
    have h2 := sizeOf_children_le value
    simp_all
    omega

end

/-- `run`, recording the elements it makes. -/
def runTraced (req : Request) (policy : Policy) : BuildM (NodeId × Made) := do
  let scope ← BuildM.read (Scope.gather · req.anchor)
  buildSpecTraced policy req.args (Spec.callDepth req.spec req.args)
    ⟨req.mode, req.reference, req.doc⟩ scope req.spec

/-- `build`, recording the elements it makes. -/
def buildTraced (target : Target) (spec : Spec) (args : List Spec) (policy : Policy) :
    BuildM (NodeId × Made) := do
  let req ← normalize target spec args
  runTraced req policy

/-! ## Object specs, branch by branch -/

section

variable {policy : Policy} {args : List Spec} {fuel : Nat} {pos : Position} {scope : Scope}

/-- The elements placed by an object spec, with the elements made under them. -/
def placedTraced (policy : Policy) (args : List Spec) (fuel : Nat) (pos : Position)
    (r : NodeId × NodeId × Scope) : List Spec → BuildM (NodeId × Made)
  | [] => pure (r.2.1, [(r.1, r.2.2)])
  | c :: cs =>
    buildListTraced policy args fuel (Position.inside r.1 pos.doc) r.2.2 (c :: cs) >>= fun kids =>
      pure (kids.1, (r.1, r.2.2) :: kids.2)

theorem buildObjectTraced_of_error {entries : List (String × Spec)} {e : BuildError}
    (h : findDesignator none entries = .error e) :
    buildObjectTraced policy args fuel pos scope entries = throw e := by
  unfold buildObjectTraced
  split <;> rename_i h' <;> simp only [h, reduceCtorEq, Except.error.injEq] at h'
  rw [h']

theorem buildObjectTraced_of_reserved {entries : List (String × Spec)} {key : String}
    {kind : Reserved} {value : Spec}
    (h : findDesignator none entries = .ok (some (key, .reserved kind, value))) :
    buildObjectTraced policy args fuel pos scope entries =
      untraced (buildReserved pos kind value.children (attributeEntries entries) args) := by
  unfold buildObjectTraced
  split <;> rename_i h' <;>
    simp only [h, reduceCtorEq, Except.ok.injEq, Option.some.injEq, Prod.mk.injEq] at h'
  obtain ⟨rfl, rfl, rfl⟩ := h'
  rfl

theorem buildObjectTraced_of_bare {entries : List (String × Spec)} {key : String} {value : Spec}
    (h : findDesignator none entries = .ok (some (key, .element, value))) (hc : value.children = []) :
    buildObjectTraced policy args fuel pos scope entries = throw .missingTagName := by
  unfold buildObjectTraced
  split <;> rename_i h' <;>
    simp only [h, reduceCtorEq, Except.ok.injEq, Option.some.injEq, Prod.mk.injEq] at h'
  obtain ⟨rfl, rfl, rfl⟩ := h'
  dsimp only
  split
  · rfl
  · next hc' => rw [hc] at hc'; cases hc'

theorem buildObjectTraced_of_element {entries : List (String × Spec)} {key : String}
    {value first : Spec} {rest : List Spec}
    (h : findDesignator none entries = .ok (some (key, .element, value)))
    (hc : value.children = first :: rest) :
    buildObjectTraced policy args fuel pos scope entries =
      BuildM.check (tagOf first args) >>= fun tag =>
        placeElement pos scope tag (attributeEntries entries) args policy >>= fun r =>
          placedTraced policy args fuel pos r rest := by
  unfold buildObjectTraced
  split <;> rename_i h' <;>
    simp only [h, reduceCtorEq, Except.ok.injEq, Option.some.injEq, Prod.mk.injEq] at h'
  obtain ⟨rfl, rfl, rfl⟩ := h'
  dsimp only
  split
  · next hc' => rw [hc] at hc'; cases hc'
  · next hc' =>
    rw [hc, List.cons.injEq] at hc'
    obtain ⟨rfl, rfl⟩ := hc'
    congr 1
    funext tag
    congr 1
    funext r
    split <;> rfl

theorem buildObjectTraced_of_named {entries : List (String × Spec)} {key name : String}
    {value : Spec} (h : findDesignator none entries = .ok (some (key, .named name, value))) :
    buildObjectTraced policy args fuel pos scope entries =
      placeElement pos scope (.qualified name) (attributeEntries entries) args policy >>= fun r =>
        placedTraced policy args fuel pos r value.children := by
  unfold buildObjectTraced
  split <;> rename_i h' <;>
    simp only [h, reduceCtorEq, Except.ok.injEq, Option.some.injEq, Prod.mk.injEq] at h'
  obtain ⟨rfl, rfl, rfl⟩ := h'
  dsimp only
  congr 1
  funext r
  split <;> rename_i hc <;> simp only [hc] <;> rfl

theorem buildObjectTraced_of_shorthand {key : String} {value : Spec} {q : QName}
    (h : findDesignator none [(key, value)] = .ok none) (hq : QName.parse? key = some q)
    (hdecl : q.isDeclaration = false) :
    buildObjectTraced policy args fuel pos scope [(key, value)] =
      placeElement pos scope (.qualified key) [] args policy >>= fun r =>
        placedTraced policy args fuel pos r value.children := by
  unfold buildObjectTraced
  split <;> rename_i h' <;> simp only [h, reduceCtorEq, Except.ok.injEq] at h'
  dsimp only
  simp only [hq, hdecl, Bool.false_eq_true, if_false]
  congr 1
  funext r
  split <;> rename_i hc <;> simp only [hc] <;> rfl

theorem buildObjectTraced_of_missing {key : String} {value : Spec}
    (h : findDesignator none [(key, value)] = .ok none)
    (hq : ∀ q, QName.parse? key = some q → q.isDeclaration = true) :
    buildObjectTraced policy args fuel pos scope [(key, value)] =
      throw (.missingDesignator [key]) := by
  unfold buildObjectTraced
  split <;> rename_i h' <;> simp only [h, reduceCtorEq, Except.ok.injEq] at h'
  dsimp only
  cases hk : QName.parse? key with
  | none => rfl
  | some q =>
    simp only [hq q hk, if_true]
    rfl

theorem buildObjectTraced_of_unmarked {entries : List (String × Spec)}
    (h : findDesignator none entries = .ok none) (hne : ∀ k v, entries ≠ [(k, v)]) :
    buildObjectTraced policy args fuel pos scope entries =
      throw (.missingDesignator (entries.map (·.1))) := by
  unfold buildObjectTraced
  split <;> rename_i h' <;> simp only [h, reduceCtorEq, Except.ok.injEq] at h'
  split
  · exact absurd rfl (hne _ _)
  · rfl

end

/-! ## Erasing the record -/

namespace BuildM

theorem corresponds_untraced (x : BuildM NodeId) :
    Corresponds (fun a b => a.1 = b) (untraced x) x := by
  intro t
  change Agree _ (EStateM.bind x _ t) (x t)
  unfold EStateM.bind
  cases x t with
  | ok a t' => exact ⟨rfl, rfl⟩
  | error e t' => trivial

end BuildM

open BuildM

/-- The elements placed by an object spec, built under it: erasing the record gives the
untraced children. -/
theorem corresponds_placedTraced {policy : Policy} {args : List Spec} {fuel : Nat}
    {pos : Position} (r : NodeId × NodeId × Scope) (xs : List Spec)
    (hxs : ∀ c cs, xs = c :: cs → Corresponds (fun a b => a.1 = b)
      (buildListTraced policy args fuel (Position.inside r.1 pos.doc) r.2.2 (c :: cs))
      (buildList policy args fuel (Position.inside r.1 pos.doc) r.2.2 (c :: cs))) :
    Corresponds (fun a b => a.1 = b) (placedTraced policy args fuel pos r xs)
      (match xs with
        | [] => pure r.2.1
        | c :: cs => buildList policy args fuel (Position.inside r.1 pos.doc) r.2.2 (c :: cs)) := by
  cases xs with
  | nil =>
    simp only [placedTraced]
    exact corresponds_pure rfl
  | cons c cs =>
    have h : Corresponds (fun a b => a.1 = b)
        (buildListTraced policy args fuel (Position.inside r.1 pos.doc) r.2.2 (c :: cs) >>=
          fun kids => pure (kids.1, (r.1, r.2.2) :: kids.2))
        (buildList policy args fuel (Position.inside r.1 pos.doc) r.2.2 (c :: cs) >>= pure) :=
      (hxs c cs rfl).bind fun _ _ hab => corresponds_pure hab
    simpa only [placedTraced, bind_pure] using h

/-- Erasing the record of a traced build gives the build. -/
theorem buildSpecTraced_erase (policy : Policy) (args : List Spec) (fuel : Nat) (pos : Position)
    (scope : Scope) (s : Spec) :
    Corresponds (fun a b => a.1 = b) (buildSpecTraced policy args fuel pos scope s)
      (buildSpec policy args fuel pos scope s) := by
  refine buildSpec.induct policy args
    (fun fuel pos scope s => Corresponds (fun a b => a.1 = b)
      (buildSpecTraced policy args fuel pos scope s) (buildSpec policy args fuel pos scope s))
    (fun fuel pos scope entries => Corresponds (fun a b => a.1 = b)
      (buildObjectTraced policy args fuel pos scope entries)
      (buildObject policy args fuel pos scope entries))
    (fun fuel pos scope items => Corresponds (fun a b => a.1 = b)
      (buildListTraced policy args fuel pos scope items) (buildList policy args fuel pos scope items))
    (fun fuel pos scope items => Corresponds (fun _ _ => True)
      (buildItemsTraced policy args fuel pos scope items)
      (buildItems policy args fuel pos scope items))
    ?null ?list ?stop ?call ?node ?empty ?object ?bool ?number ?string ?failed ?declaration
    ?shorthand ?unparsed ?unmarked ?reserved ?bare ?element ?named ?nil ?single ?batch ?none
    ?some fuel pos scope s
  case null =>
    intro fuel pos scope
    simp only [buildSpec, buildSpecTraced]
    exact corresponds_pure rfl
  case list =>
    intro fuel pos scope items ih
    simp only [buildSpec, buildSpecTraced]
    exact ih
  case stop =>
    intro pos scope body
    simp only [buildSpec, buildSpecTraced]
    exact corresponds_pure rfl
  case call =>
    intro pos scope body fuel ih
    simp only [buildSpec, buildSpecTraced]
    exact ih
  case node =>
    intro fuel pos scope n
    simp only [buildSpec, buildSpecTraced]
    exact corresponds_untraced _
  case empty =>
    intro fuel pos scope
    simp only [buildSpec, buildSpecTraced]
    exact corresponds_untraced _
  case object =>
    intro fuel pos scope e es ih
    simp only [buildSpec, buildSpecTraced]
    exact ih
  case bool =>
    intro fuel pos scope b
    simp only [buildSpec, buildSpecTraced]
    exact corresponds_untraced _
  case number =>
    intro fuel pos scope n
    simp only [buildSpec, buildSpecTraced]
    exact corresponds_untraced _
  case string =>
    intro fuel pos scope str
    simp only [buildSpec, buildSpecTraced]
    exact corresponds_untraced _
  case failed =>
    intro fuel pos scope entries e hfind
    rw [buildObjectTraced_of_error hfind, buildObject_of_error hfind]
    exact corresponds_throw
  case declaration =>
    intro fuel pos scope key value q hq hdecl hfind _ _
    have hmissing : ∀ q', QName.parse? key = some q' → q'.isDeclaration = true := by
      intro q' hq'
      rw [hq] at hq'
      cases hq'
      exact hdecl
    rw [buildObjectTraced_of_missing hfind hmissing, buildObject_of_missing hfind hmissing]
    exact corresponds_throw
  case shorthand =>
    intro fuel pos scope key value q hq hdecl hfind _ ih
    have hdecl' : q.isDeclaration = false := Bool.eq_false_iff.2 hdecl
    rw [buildObjectTraced_of_shorthand hfind hq hdecl', buildObject_of_shorthand hfind hq hdecl']
    exact Corresponds.bind_right fun r =>
      corresponds_placedTraced r _ fun c cs hc => ih r.1 r.2.2 c cs hc
  case unparsed =>
    intro fuel pos scope key value hq hfind _
    have hmissing : ∀ q', QName.parse? key = some q' → q'.isDeclaration = true := by
      intro q' hq'
      rw [hq] at hq'
      cases hq'
    rw [buildObjectTraced_of_missing hfind hmissing, buildObject_of_missing hfind hmissing]
    exact corresponds_throw
  case unmarked =>
    intro fuel pos scope entries hfind hne
    rw [buildObjectTraced_of_unmarked hfind hne, buildObject_of_unmarked hfind hne]
    exact corresponds_throw
  case reserved =>
    intro fuel pos scope entries key value kind hfind _
    rw [buildObjectTraced_of_reserved hfind, buildObject_of_reserved hfind]
    exact corresponds_untraced _
  case bare =>
    intro fuel pos scope entries key value hchildren hfind _
    rw [buildObjectTraced_of_bare hfind hchildren, buildObject_of_bare hfind hchildren]
    exact corresponds_throw
  case element =>
    intro fuel pos scope entries key value c cs hchildren hfind _ ih
    rw [buildObjectTraced_of_element hfind hchildren, buildObject_of_element hfind hchildren]
    refine Corresponds.bind_right fun tag => Corresponds.bind_right fun r => ?_
    exact corresponds_placedTraced r _ fun d ds hd => ih r.1 r.2.2 d ds hd
  case named =>
    intro fuel pos scope entries key value name hfind _ ih
    rw [buildObjectTraced_of_named hfind, buildObject_of_named hfind]
    exact Corresponds.bind_right fun r =>
      corresponds_placedTraced r _ fun c cs hc => ih r.1 r.2.2 c cs hc
  case nil =>
    intro fuel pos scope
    simp only [buildList, buildListTraced]
    exact corresponds_pure rfl
  case single =>
    intro fuel pos scope x ih
    simp only [buildList, buildListTraced]
    exact ih
  case batch =>
    intro fuel pos scope x y rest ihx ihrest
    simp only [buildList, buildListTraced]
    refine Corresponds.bind_right fun frag => ?_
    refine (ihx frag).bind fun first _ _ => ?_
    refine (ihrest frag).bind fun more _ _ => ?_
    have h : Corresponds (fun a b => a.1 = b)
        (attachBatch pos frag >>= fun r => pure (r, first.2 ++ more))
        (attachBatch pos frag >>= pure) :=
      (corresponds_refl (attachBatch pos frag)).bind fun _ _ hab => corresponds_pure (hab ▸ rfl)
    simpa only [bind_pure, attachBatch] using h
  case none =>
    intro fuel pos scope
    simp only [buildItems, buildItemsTraced]
    exact corresponds_pure trivial
  case some =>
    intro fuel pos scope x rest ihx ihrest
    simp only [buildItems, buildItemsTraced]
    refine ihx.bind fun first _ _ => ?_
    have h : Corresponds (fun _ _ => True)
        (buildItemsTraced policy args fuel pos scope rest >>= fun more => pure (first.2 ++ more))
        (buildItems policy args fuel pos scope rest >>= pure) :=
      ihrest.bind fun _ _ _ => corresponds_pure trivial
    simpa only [bind_pure] using h

/-- Erasing the record of a traced build at a target gives the build. -/
theorem buildTraced_erase (target : Target) (spec : Spec) (args : List Spec) (policy : Policy) :
    Corresponds (fun a b => a.1 = b) (buildTraced target spec args policy)
      (build target spec args policy) :=
  Corresponds.bind_right fun req => Corresponds.bind_right fun scope =>
    buildSpecTraced_erase policy req.args _ _ scope req.spec

/-- A build that succeeds has a traced run that ends in the same tree with the same result. -/
theorem buildTraced_of_build {target : Target} {spec : Spec} {args : List Spec} {policy : Policy}
    {t t' : Tree} {r : NodeId} (h : build target spec args policy t = .ok r t') :
    ∃ made, buildTraced target spec args policy t = .ok (r, made) t' := by
  have hagree := buildTraced_erase target spec args policy t
  rw [h] at hagree
  cases ht : buildTraced target spec args policy t with
  | ok a t'' =>
    rw [ht] at hagree
    obtain ⟨hr, rfl⟩ := hagree
    exact ⟨a.2, by rw [← hr]⟩
  | error e t'' =>
    rw [ht] at hagree
    exact hagree.elim

/-- A traced run that succeeds erases to a build with the same result and tree. -/
theorem build_of_buildTraced {target : Target} {spec : Spec} {args : List Spec} {policy : Policy}
    {t t' : Tree} {r : NodeId} {made : Made} (h : buildTraced target spec args policy t = .ok (r, made) t') :
    build target spec args policy t = .ok r t' := by
  have hagree := buildTraced_erase target spec args policy t
  rw [h] at hagree
  cases hb : build target spec args policy t with
  | ok b t'' =>
    rw [hb] at hagree
    obtain ⟨rfl, rfl⟩ := hagree
    rfl
  | error e t'' =>
    rw [hb] at hagree
    exact hagree.elim

end Markup
