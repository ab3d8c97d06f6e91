import Markup.Proofs.Build.Landing

/-!
# What a build returns, and what a failed build leaves

A build returns what stands at the attachment point, or what its last item, a call's result or
an element's children return (`Returned`); a failed build has changed nothing there, or put one
new element whose children failed (`Position.Failed`). Both follow by one induction along the
interpreter's recursion (`ends_buildSpec`).
-/

namespace Markup

open Relation Markup.Tree BuildM

/-! ## Node handles a build copies -/

namespace Spec

/-- Every node handle a build of `s` can reach names no empty fragment of `t`. -/
def HandlesFilled (args : List Spec) (t : Tree) (s : Spec) : Prop :=
  ∀ n, ReflTransGen (Step args) s (.node n) → t.nodeType n = .fragment → t.children n ≠ []

theorem HandlesFilled.step {args : List Spec} {t : Tree} {s s' : Spec} (h : s.HandlesFilled args t)
    (hs : Step args s s') : s'.HandlesFilled args t :=
  fun n hr => h n (.head hs hr)

end Spec

/-- What `Returned` asks of a build of `s` at `pos` on `t`: no node handle it can reach names an
empty fragment, or it appends to a node with no children, which a copy of an empty fragment then
returns as the reference. -/
def Position.Fills (pos : Position) (args : List Spec) (t : Tree) (s : Spec) : Prop :=
  s.HandlesFilled args t ∨ pos.mode = .parent ∧ t.children pos.reference = []

theorem Position.Fills.step {pos : Position} {args : List Spec} {t : Tree} {s s' : Spec}
    (h : pos.Fills args t s) (hs : Spec.Step args s s') : pos.Fills args t s' :=
  h.imp (·.step hs) id

/-! ## What a build returns -/

/-- The children an object spec builds inside its element: the items after the tag name for an
element designator, the value's items for a named designator or a one-entry shorthand, and none
otherwise. -/
def objectChildren (entries : List (String × Spec)) : List Spec :=
  match findDesignator none entries with
  | .ok (some (_, .element, value)) => value.children.tail
  | .ok (some (_, .named _, value)) => value.children
  | .ok none =>
    match entries with
    | [(_, value)] => value.children
    | _ => []
  | _ => []

/-- A spec whose build returns what it puts at the attachment point: no list of one item, no
callable, and no object with children. -/
def Spec.Direct : Spec → Prop
  | .list [_] | .callable _ => False
  | .mapping entries => objectChildren entries = []
  | _ => True

/-- What a build of `s` at `pos`, from `t` to `t'`, returns. The reference, when nothing new
stands at the attachment point; for a spec built directly, the last of the new nodes that stand
there, or the first in `after` mode; for a list of one item, a callable and an element with
children, what the item, the result and the children return. -/
inductive Returned (args : List Spec) : Nat → Position → Spec → Tree → Tree → NodeId → Prop
  | nothing {fuel pos s t t'} : pos.Leaves t t' none →
      Returned args fuel pos s t t' pos.reference
  | landed {fuel pos s t t' ins v} : s.Direct → ins ≠ [] → pos.Leaves t t' (some ins) →
      some v = pos.mode.landed ins → Returned args fuel pos s t t' v
  | item {fuel pos x t t' v} : Returned args fuel pos x t t' v →
      Returned args fuel pos (.list [x]) t t' v
  | call {fuel pos body t t' v} : Returned args fuel pos (Spec.call body args) t t' v →
      Returned args (fuel + 1) pos (.callable body) t t' v
  | element {fuel pos entries t t₁ t' el v} : objectChildren entries ≠ [] →
      pos.Leaves t t₁ (some [el]) → t₁.nodeType el = .element → t₁.children el = [] →
      Returned args fuel (Position.inside el pos.doc) (.list (objectChildren entries)) t₁ t' v →
      Returned args fuel pos (.mapping entries) t t' v

/-- What a failed build at `pos` leaves of `t`: nothing changed at the attachment point, or one
new element stands there, the element whose children failed to build. -/
def Position.Failed (pos : Position) (t t' : Tree) : Prop :=
  pos.Leaves t t' none ∨ ∃ el, pos.Leaves t t' (some [el]) ∧ t'.nodeType el = .element

theorem Position.Failed.exists_leaves {pos : Position} {t t' : Tree} (h : pos.Failed t t') :
    ∃ o, pos.Leaves t t' o := by
  rcases h with h | ⟨_, h, -⟩
  · exact ⟨_, h⟩
  · exact ⟨_, h⟩

section Steps

variable {args : List Spec} {fuel : Nat} {pos : Position} {s : Spec} {t : Tree}

/-- A build that puts one new node in place and returns it. -/
theorem ends_leaf {x : BuildM NodeId} (hs : s.Direct)
    (h : Ends x t (fun v t' => pos.Leaves t t' (some [t.size]) ∧ v = t.size)
      (fun t' => pos.Leaves t t' none)) :
    Ends x t (fun v t' => (∃ o, pos.Leaves t t' o) ∧
        (pos.Fills args t s → Returned args fuel pos s t t' v)) (pos.Failed t) := by
  refine h.mono (fun v t' h' => ?_) fun _ h' => .inl h'
  obtain ⟨hl, rfl⟩ := h'
  exact ⟨⟨_, hl⟩, fun _ => .landed hs (List.cons_ne_nil _ _) hl (Mode.landed_singleton _ _).symm⟩

/-- An element put in place, then its children, if any, built inside it: with no children the
element is returned, else what the children return. -/
theorem Position.ends_element (ht : t.WellFormed) (hr : pos.reference < t.size)
    {policy : Policy} {scope : Scope} {tag : TagName} {attrs : List (String × Spec)}
    {entries : List (String × Spec)} (L : List Spec) (hL : objectChildren entries = L)
    (ih : ∀ el inner c cs, L = c :: cs → ∀ t₁ : Tree, t₁.WellFormed → el < t₁.size →
      Ends (buildList policy args fuel (Position.inside el pos.doc) inner (c :: cs)) t₁
        (fun v t' => (∃ o, (Position.inside el pos.doc).Leaves t₁ t' o) ∧
          ((Position.inside el pos.doc).Fills args t₁ (.list (c :: cs)) →
            Returned args fuel (Position.inside el pos.doc) (.list (c :: cs)) t₁ t' v))
        ((Position.inside el pos.doc).Failed t₁)) :
    Ends (placeElement pos scope tag attrs args policy >>= fun r =>
        match L with
        | [] => pure r.2.1
        | c :: cs => buildList policy args fuel (Position.inside r.1 pos.doc) r.2.2 (c :: cs)) t
      (fun v t' => (∃ o, pos.Leaves t t' o) ∧
        (pos.Fills args t (.mapping entries) →
          Returned args fuel pos (.mapping entries) t t' v))
      (pos.Failed t) := by
  refine ((pos.ends_placeElement ht hr scope tag attrs args policy).mono (fun _ _ h => h)
    fun _ h => .inl h).bind fun r t₁ h₁ => ?_
  obtain ⟨hl, hv, hfresh, hel, hkids⟩ := h₁
  have hel₁ : r.1 < t₁.size := lt_size_of_nodeType_ne (by rw [hel]; exact fun h => by cases h)
  cases L with
  | nil =>
    refine ends_pure _ ⟨⟨_, hl⟩, fun _ => ?_⟩
    rw [hv]
    exact .landed hL (List.cons_ne_nil _ _) hl (Mode.landed_singleton _ _).symm
  | cons c cs =>
    refine (ih r.1 r.2.2 c cs rfl t₁ hl.wf hel₁).mono (fun v t' h => ?_) fun t' h => ?_
    · obtain ⟨⟨o, hl'⟩, hret⟩ := h
      -- the children are appended to the new element, which has none yet
      refine ⟨⟨_, hl.nest hl' ht hr hfresh⟩, fun _ => ?_⟩
      exact .element (by rw [hL]; exact List.cons_ne_nil _ _) hl hel hkids (hL ▸ hret (.inr ⟨rfl, hkids⟩))
    · obtain ⟨o, hl'⟩ := h.exists_leaves
      exact .inr ⟨r.1, hl.nest hl' ht hr hfresh, by rw [hl'.nodeType hel₁]; exact hel⟩

/-- A batch is built into a new fragment, which is put in place only when it holds nodes: they
are then what lands, and else nothing changed at the attachment point. -/
theorem Position.ends_batch (ht : t.WellFormed) (hr : pos.reference < t.size) (hs : s.Direct)
    (first : NodeId → BuildM NodeId) (more : NodeId → BuildM Unit)
    (hfirst : ∀ t₁ : Tree, t₁.WellFormed → t.size < t₁.size →
      Ends (first t.size) t₁ (fun _ t₂ => ∃ o, (Position.inside t.size pos.doc).Leaves t₁ t₂ o)
        (fun t₂ => ∃ o, (Position.inside t.size pos.doc).Leaves t₁ t₂ o))
    (hmore : ∀ t₁ : Tree, t₁.WellFormed → t.size < t₁.size →
      Ends (more t.size) t₁ (fun _ t₂ => ∃ o, (Position.inside t.size pos.doc).Leaves t₁ t₂ o)
        (fun t₂ => ∃ o, (Position.inside t.size pos.doc).Leaves t₁ t₂ o)) :
    Ends (do
        let frag ← alloc (·.createFragment pos.doc)
        let _ ← first frag
        more frag
        if (← read (·.firstChild frag)).isNone then return pos.reference
        pos.mode.attach frag pos.reference) t
      (fun v t' => (∃ o, pos.Leaves t t' o) ∧
        (pos.Fills args t s → Returned args fuel pos s t t' v))
      (pos.Failed t) := by
  refine (ends_alloc_eq _).bind fun frag t₁ h => ?_
  obtain ⟨rfl, rfl⟩ := h
  dsimp only [createFragment, alloc_snd]
  -- the items are built into the new fragment, which no old node sees
  have hwf₁ : (t.alloc .fragment (some pos.doc)).1.WellFormed :=
    ht.alloc _ _ fun _ he => by cases he
  have h₁ : pos.Leaves t (t.alloc .fragment (some pos.doc)).1 none :=
    Position.Leaves.of_get hwf₁ (by simp) fun _ hx => get_alloc_of_lt _ _ hx
  have hfrag : t.size < (t.alloc .fragment (some pos.doc)).1.size := by simp
  have hin : ∀ t₂, (∃ o, (Position.inside t.size pos.doc).Leaves
      (t.alloc .fragment (some pos.doc)).1 t₂ o) → pos.Leaves t t₂ none := fun _ h => by
    obtain ⟨_, h⟩ := h
    exact h₁.nest h ht hr le_rfl
  refine ((hfirst _ hwf₁ hfrag).mono (fun _ _ h => h) fun t₂ h => .inl (hin t₂ h)).bind
    fun _ t₂ h₂ => ?_
  obtain ⟨o₂, hl₂⟩ := h₂
  have hboth : ∀ t₃, (∃ o, (Position.inside t.size pos.doc).Leaves t₂ t₃ o) →
      ∃ o, (Position.inside t.size pos.doc).Leaves (t.alloc .fragment (some pos.doc)).1 t₃ o :=
    fun _ h => by
      obtain ⟨_, h⟩ := h
      exact hl₂.append rfl h hwf₁ hfrag
  refine ((hmore t₂ hl₂.wf (lt_of_lt_of_le hfrag hl₂.size_le)).mono
    (fun _ t₃ h => hboth t₃ h) fun t₃ h => .inl (hin t₃ (hboth t₃ h))).bind fun _ t₃ h₃ => ?_
  obtain ⟨o₃, hl₃⟩ := h₃
  have hlt := hin t₃ ⟨_, hl₃⟩
  have hnp : t₃.parent t.size = none := by
    rw [hl₃.parent hfrag (.inr (by simp)), parent_alloc, if_pos rfl]
  have htype : t₃.nodeType t.size = .fragment := by
    rw [hl₃.nodeType hfrag, nodeType_alloc, if_pos rfl]
    rfl
  refine (ends_read_eq _).bind fun first t₄ h₄ => ?_
  obtain ⟨rfl, ht₄⟩ := h₄
  rw [ht₄]
  split
  · exact ends_pure _ ⟨⟨_, hlt⟩, fun _ => .nothing hlt⟩
  · -- the fragment holds nodes: they are what lands
    rename_i hsome
    refine (hlt.ends_attach ht hr le_rfl hnp).mono (fun v t' h => ?_) fun _ h => .inl h
    obtain ⟨hl, hatt, -⟩ := h
    have hne : t₃.incoming t.size ≠ [] := by
      rw [incoming, if_pos htype]
      intro hnil
      simp [firstChild, hnil] at hsome
    exact ⟨⟨_, hl⟩, fun _ => .landed hs hne hl (hatt.landed hne)⟩

end Steps

/-! ## The induction -/

/-- A build of `s` at `pos` from a well-formed tree leaves the old nodes as `Position.Leaves`
says and, when the handles it copies are filled, returns what `Returned` says; a failed build
leaves what `Position.Failed` says. -/
theorem ends_buildSpec (policy : Policy) (args : List Spec) (fuel : Nat) (pos : Position)
    (scope : Scope) (s : Spec) :
    ∀ t : Tree, t.WellFormed → pos.reference < t.size →
      Ends (buildSpec policy args fuel pos scope s) t
        (fun v t' => (∃ o, pos.Leaves t t' o) ∧
          (pos.Fills args t s → Returned args fuel pos s t t' v))
        (pos.Failed t) := by
  refine buildSpec.induct policy args
    (fun fuel pos scope s => ∀ t : Tree, t.WellFormed → pos.reference < t.size →
      Ends (buildSpec policy args fuel pos scope s) t
        (fun v t' => (∃ o, pos.Leaves t t' o) ∧
          (pos.Fills args t s → Returned args fuel pos s t t' v))
        (pos.Failed t))
    (fun fuel pos scope entries => ∀ t : Tree, t.WellFormed → pos.reference < t.size →
      Ends (buildObject policy args fuel pos scope entries) t
        (fun v t' => (∃ o, pos.Leaves t t' o) ∧
          (pos.Fills args t (.mapping entries) →
            Returned args fuel pos (.mapping entries) t t' v))
        (pos.Failed t))
    (fun fuel pos scope items => ∀ t : Tree, t.WellFormed → pos.reference < t.size →
      Ends (buildList policy args fuel pos scope items) t
        (fun v t' => (∃ o, pos.Leaves t t' o) ∧
          (pos.Fills args t (.list items) → Returned args fuel pos (.list items) t t' v))
        (pos.Failed t))
    (fun fuel pos scope items => ∀ t : Tree, t.WellFormed → pos.reference < t.size →
      pos.mode = .parent →
      Ends (buildItems policy args fuel pos scope items) t
        (fun _ t' => ∃ o, pos.Leaves t t' o) (fun t' => ∃ o, pos.Leaves t t' o))
    ?null ?list ?stop ?call ?node ?empty ?object ?bool ?number ?string ?failed ?declaration
    ?shorthand ?unparsed ?unmarked ?reserved ?bare ?element ?named ?nil ?single ?batch ?none
    ?some fuel pos scope s
  case null =>
    intro fuel pos scope t ht _
    simp only [buildSpec]
    exact ends_pure _ ⟨⟨_, .refl ht⟩, fun _ => .nothing (.refl ht)⟩
  case list =>
    intro fuel pos scope items ih t ht hr
    simp only [buildSpec]
    exact ih t ht hr
  case stop =>
    intro pos scope body t ht _
    simp only [buildSpec]
    exact ends_pure _ ⟨⟨_, .refl ht⟩, fun _ => .nothing (.refl ht)⟩
  case call =>
    intro pos scope body fuel ih t ht hr
    simp only [buildSpec]
    exact (ih t ht hr).mono (fun _ _ h => ⟨h.1, fun hf => .call (h.2 (hf.step (.call body)))⟩)
      fun _ h => h
  case node =>
    intro fuel pos scope n t ht hr
    simp only [buildSpec]
    refine (pos.ends_clone ht hr n).mono (fun v t' h => ?_) fun _ h => .inl h
    obtain ⟨ins, hl, hland, hstood, hne⟩ := h
    refine ⟨⟨_, hl⟩, fun hf => ?_⟩
    by_cases hins : ins = []
    · -- nothing lands: an empty fragment was copied, so the build appends to a childless node
      subst hins
      rcases hf with hf | ⟨hm, hkids⟩
      · exact absurd rfl (hne (hf n .refl))
      · rw [hstood rfl, hm]
        simp only [Mode.stood, lastChild, hkids, List.getLast?_nil, Option.getD_none]
        exact .nothing (hl.none_of_parent_nil hm)
    · exact .landed trivial hins hl (hland hins)
  case empty =>
    intro fuel pos scope t ht hr
    simp only [buildSpec]
    exact ends_leaf rfl (pos.ends_buildText ht hr "")
  case object =>
    intro fuel pos scope e es ih t ht hr
    simp only [buildSpec]
    exact ih t ht hr
  case bool =>
    intro fuel pos scope b t ht hr
    simp only [buildSpec]
    exact ends_leaf trivial (pos.ends_buildText ht hr _)
  case number =>
    intro fuel pos scope n t ht hr
    simp only [buildSpec]
    exact ends_leaf trivial (pos.ends_buildText ht hr _)
  case string =>
    intro fuel pos scope str t ht hr
    simp only [buildSpec]
    exact ends_leaf trivial (pos.ends_buildText ht hr _)
  case failed =>
    intro fuel pos scope entries e hfind t ht _
    rw [buildObject_of_error hfind]
    exact ends_throw e (.inl (.refl ht))
  case declaration =>
    intro fuel pos scope key value q hq hdecl hfind _ _ t ht _
    rw [buildObject_of_missing hfind fun q' hq' => by
      rw [hq, Option.some.injEq] at hq'
      rw [← hq']
      exact hdecl]
    exact ends_throw _ (.inl (.refl ht))
  case shorthand =>
    intro fuel pos scope key value q hq hdecl hfind hmem ih t ht hr
    rw [buildObject_of_shorthand hfind hq (Bool.eq_false_iff.2 hdecl)]
    exact pos.ends_element ht hr value.children (by simp only [objectChildren, hfind]) ih
  case unparsed =>
    intro fuel pos scope key value hq hfind _ t ht _
    rw [buildObject_of_missing hfind fun q' hq' => by rw [hq] at hq'; cases hq']
    exact ends_throw _ (.inl (.refl ht))
  case unmarked =>
    intro fuel pos scope entries hfind hne t ht _
    rw [buildObject_of_unmarked hfind hne]
    exact ends_throw _ (.inl (.refl ht))
  case reserved =>
    intro fuel pos scope entries key value kind hfind _ t ht hr
    rw [buildObject_of_reserved hfind]
    exact ends_leaf (by simp only [Spec.Direct, objectChildren, hfind])
      (pos.ends_buildReserved ht hr kind _ _ args)
  case bare =>
    intro fuel pos scope entries key value hchildren hfind _ t ht _
    rw [buildObject_of_bare hfind hchildren]
    exact ends_throw _ (.inl (.refl ht))
  case element =>
    intro fuel pos scope entries key value c cs hchildren hfind hmem ih t ht hr
    rw [buildObject_of_element hfind hchildren]
    refine (ends_check _ (fun _ _ => rfl) (.inl (.refl ht)) :
      Ends _ t (fun _ t₁ => t₁ = t) _).bind fun tag t₁ ht₁ => ?_
    rw [ht₁]
    exact pos.ends_element ht hr cs
      (by simp only [objectChildren, hfind, hchildren, List.tail_cons]) ih
  case named =>
    intro fuel pos scope entries key value name hfind hmem ih t ht hr
    rw [buildObject_of_named hfind]
    exact pos.ends_element ht hr value.children (by simp only [objectChildren, hfind]) ih
  case nil =>
    intro fuel pos scope t ht _
    simp only [buildList]
    exact ends_pure _ ⟨⟨_, .refl ht⟩, fun _ => .nothing (.refl ht)⟩
  case single =>
    intro fuel pos scope x ih t ht hr
    simp only [buildList]
    exact (ih t ht hr).mono (fun _ _ h =>
      ⟨h.1, fun hf => .item (h.2 (hf.step (.item (List.mem_singleton_self x))))⟩) fun _ h => h
  case batch =>
    intro fuel pos scope x y rest ihx ihrest t ht hr
    simp only [buildList]
    exact pos.ends_batch ht hr (show Spec.Direct (.list (x :: y :: rest)) from trivial) _ _
      (fun t₁ h₁ hs₁ => (ihx t.size t₁ h₁ hs₁).mono (fun _ _ h => h.1) fun _ h => h.exists_leaves)
      fun t₁ h₁ hs₁ => ihrest t.size t₁ h₁ hs₁ rfl
  case none =>
    intro fuel pos scope t ht _ _
    simp only [buildItems]
    exact ends_pure _ ⟨_, .refl ht⟩
  case some =>
    intro fuel pos scope x rest ihx ihrest t ht hr hm
    simp only [buildItems]
    refine ((ihx t ht hr).mono (fun _ _ h => h.1) fun _ h => h.exists_leaves).bind
      fun _ t₁ h₁ => ?_
    obtain ⟨o₁, hl₁⟩ := h₁
    have hmore : ∀ t₂, (∃ o, pos.Leaves t₁ t₂ o) → ∃ o, pos.Leaves t t₂ o := fun _ h => by
      obtain ⟨_, h⟩ := h
      exact hl₁.append hm h ht hr
    exact (ihrest t₁ hl₁.wf (lt_of_lt_of_le hr hl₁.size_le) hm).mono (fun _ t₂ h => hmore t₂ h)
      hmore

/-! ## Requests and targets -/

/-- The position a request builds at. -/
def Request.position (req : Request) : Position :=
  ⟨req.mode, req.reference, req.doc⟩

/-- Building a request: the scope is gathered, then the spec is built at the request's
position. -/
theorem ends_run {t : Tree} {req : Request} (ht : t.WellFormed) (hr : req.reference < t.size)
    (policy : Policy) :
    Ends (run req policy) t
      (fun v t' => (∃ o, req.position.Leaves t t' o) ∧
        (req.position.Fills req.args t req.spec →
          Returned req.args (req.spec.callDepth req.args) req.position req.spec t t' v))
      (req.position.Failed t) := by
  unfold run
  refine (ends_read_eq _).bind fun scope t₁ h => ?_
  obtain ⟨-, rfl⟩ := h
  exact ends_buildSpec policy req.args _ req.position scope req.spec t₁ ht hr

/-- `t'` is `t` with new documents only. -/
structure Tree.Adds (t t' : Tree) : Prop where
  wf : t'.WellFormed
  size_le : t.size ≤ t'.size
  get_old : ∀ {x}, x < t.size → t'.get x = t.get x
  new_document : ∀ {x}, t.size ≤ x → t'.nodeType x = .document

namespace Tree.Adds

variable {t t' : Tree}

theorem refl (h : t.WellFormed) : t.Adds t :=
  ⟨h, le_rfl, fun _ => rfl, fun hx => by rw [Tree.nodeType, get_of_size_le hx]; rfl⟩

theorem leaves (h : t.Adds t') (pos : Position) : pos.Leaves t t' none :=
  Position.Leaves.of_get h.wf h.size_le fun _ hx => h.get_old hx

theorem links (h : t.Adds t') {x : NodeId} (hx : x < t.size) :
    t'.parent x = t.parent x ∧ t'.children x = t.children x := by
  simp only [Tree.parent, Tree.children, h.get_old hx, and_self]

theorem createDocument (h : t.WellFormed) : t.Adds t.createDocument.1 where
  wf := h.alloc _ _ fun _ he => by cases he
  size_le := by simp [Tree.createDocument]
  get_old hx := get_alloc_of_lt _ _ hx
  new_document {x} hx := by
    rw [Tree.createDocument, nodeType_alloc]
    split
    · rfl
    · rw [Tree.nodeType, get_of_size_le hx]
      rfl

end Tree.Adds

/-- Adding documents leaves the handles filled. -/
theorem Spec.HandlesFilled.of_adds {args : List Spec} {s : Spec} {t t' : Tree}
    (h : s.HandlesFilled args t) (hadd : t.Adds t') : s.HandlesFilled args t' := by
  intro n hr hfr
  by_cases hn : n < t.size
  · rw [(hadd.links hn).2]
    exact h n hr (by simpa only [Tree.nodeType, hadd.get_old hn] using hfr)
  · rw [hadd.new_document (Nat.le_of_not_lt hn)] at hfr
    cases hfr

/-- The nodes a target names for the build to attach to are nodes of `t`: the node of a node
target, and the bound reference and the document of options. -/
def Target.Within (t : Tree) : Target → Prop
  | .node n => n < t.size
  | .options o => (∀ b ∈ o.bindings, b.2 < t.size) ∧ ∀ d ∈ o.doc, d < t.size

instance (t : Tree) (target : Target) : Decidable (target.Within t) := by
  cases target <;> unfold Target.Within <;> infer_instance

theorem mem_of_checkBindings {t : Tree} {seen : Option Mode} {bs : List (Mode × NodeId)}
    {b : Mode × NodeId} (h : checkBindings t seen bs = .ok (some b)) : b ∈ bs := by
  induction bs generalizing seen with
  | nil => cases h
  | cons b' rest ih =>
    unfold checkBindings at h
    split at h
    · cases h
    · split at h
      · cases h
      · split at h
        · cases h
          exact List.mem_cons_self
        · exact List.mem_cons_of_mem _ (ih h)

section Normalize

variable {t : Tree}

theorem ends_documentOf {E : Tree → Prop} (ht : t.WellFormed) (n : NodeId) :
    Ends (documentOf n) t (fun _ t' => t.Adds t') E := by
  have hget : (get : BuildM Tree) = read id := rfl
  unfold documentOf
  rw [hget]
  refine (ends_read_eq id).bind fun t₁ t₂ h => ?_
  obtain ⟨rfl, rfl⟩ := h
  split
  · exact ends_pure _ (.refl ht)
  · split
    · exact ends_pure _ (.refl ht)
    · exact ends_alloc _ (.createDocument ht)

/-- Normalizing a target adds at most a new document, and gives a reference of the tree. -/
theorem ends_normalize {target : Target} (ht : t.WellFormed) (hw : target.Within t) (spec : Spec)
    (args : List Spec) :
    Ends (normalize target spec args) t (fun req t₁ => t.Adds t₁ ∧ req.reference < t₁.size)
      (fun t' => t.Adds t') := by
  have hget : (get : BuildM Tree) = read id := rfl
  cases target with
  | node n =>
    unfold normalize
    exact (ends_documentOf ht n).bind fun _ t₁ h₁ =>
      ends_pure _ ⟨h₁, lt_of_lt_of_le hw h₁.size_le⟩
  | options o =>
    unfold normalize
    dsimp only
    rw [hget]
    refine (ends_read_eq id).bind fun t₁ t₂ h => ?_
    obtain ⟨rfl, rfl⟩ := h
    cases hcheck : checkBindings t₂ none o.bindings with
    | error e => exact ends_throw_bind (.refl ht)
    | ok bound =>
      dsimp only
      refine ends_pure_bind ?_
      cases bound with
      | none =>
        cases hdoc : o.doc with
        | some d =>
          exact ends_pure_bind (ends_pure _ ⟨.refl ht, hw.2 d hdoc⟩)
        | none =>
          refine (ends_alloc_eq _).bind fun doc t₃ h => ?_
          obtain ⟨rfl, rfl⟩ := h
          exact ends_pure _ ⟨.createDocument ht, by simp [Tree.createDocument]⟩
      | some b =>
        obtain ⟨mode, ref⟩ := b
        have hr : ref < t₂.size := hw.1 _ (mem_of_checkBindings hcheck)
        -- the document may be new; the anchor is given, or the reference's parent looked up
        have hparent : ∀ t₃, t₂.Adds t₃ →
            Ends (mode.parentOf ref) t₃ (fun _ t₄ => t₄ = t₃) (fun t' => t₂.Adds t') :=
          fun t₃ h₃ => (Mode.ends_parentOf mode ref t₃).mono (fun _ _ h => h.1) fun _ h => h ▸ h₃
        have hfinish : ∀ t₃, t₂.Adds t₃ → ∀ (x : BuildM NodeId) (k : NodeId → Request),
            Ends x t₃ (fun _ t₄ => t₄ = t₃) (fun t' => t₂.Adds t') → (∀ a, (k a).reference = ref) →
            Ends (x >>= fun a => pure (k a)) t₃
              (fun req t₁ => t₂.Adds t₁ ∧ req.reference < t₁.size) (fun t' => t₂.Adds t') := by
          intro t₃ h₃ x k hx hk
          refine hx.bind fun a t₄ h₄ => ?_
          rw [h₄]
          exact ends_pure _ ⟨h₃, by rw [hk]; exact lt_of_lt_of_le hr h₃.size_le⟩
        dsimp only
        split
        · refine ends_pure_bind ?_
          have h₃ : t₂.Adds t₂ := .refl ht
          split
          · exact hfinish _ h₃ _ _ (ends_pure _ rfl) fun _ => rfl
          · exact hfinish _ h₃ _ _ (ends_pure _ rfl) fun _ => rfl
          · exact hfinish _ h₃ _ _ (hparent _ h₃) fun _ => rfl
        · refine (ends_documentOf ht ref).bind fun doc t₃ h₃ => ?_
          split
          · exact hfinish _ h₃ _ _ (ends_pure _ rfl) fun _ => rfl
          · exact hfinish _ h₃ _ _ (ends_pure _ rfl) fun _ => rfl
          · exact hfinish _ h₃ _ _ (hparent _ h₃) fun _ => rfl

end Normalize

/-! ## Builds -/

section Build

variable {target : Target} {spec : Spec} {args : List Spec} {policy : Policy} {t t' : Tree}

/-- Once the target is normalized, a build is the build of the spec in the scope gathered at
the anchor. -/
theorem build_apply_of_normalize {req : Request} {t₁ : Tree}
    (h : normalize target spec args t = .ok req t₁) :
    build target spec args policy t =
      buildSpec policy req.args (req.spec.callDepth req.args) req.position
        (Scope.gather t₁ req.anchor) req.spec t₁ := by
  unfold build
  rw [bind_apply_of_eq_ok h]
  rfl

/-- A failed build keeps the content of every node that was there before, attributes included.
Every old node also keeps its parent and children, unless the failure came while the children
of an element were built: that element, new, was put in place before its children, and stays
where the request attached it, alone. -/
theorem build_error_leaves {e : BuildError} (hreach : t.Reachable) (hw : target.Within t)
    (hrun : build target spec args policy t = .error e t') :
    (∀ x < t.size, (t'.get x).content = (t.get x).content) ∧
      ((∀ x < t.size, t'.parent x = t.parent x ∧ t'.children x = t.children x) ∨
        ∃ req t₁ el, normalize target spec args t = .ok req t₁ ∧
          req.position.Leaves t₁ t' (some [el]) ∧ t'.nodeType el = .element) := by
  have ht := hreach.wellFormed
  have hnorm := ends_normalize ht hw spec args
  rcases bind_eq_error hrun with hn | ⟨req, t₁, hn, hrun'⟩
  · -- normalizing failed: at most a new document was made
    have hadd := hnorm.error hn
    exact ⟨fun x hx => by rw [hadd.get_old hx], .inl fun x hx => hadd.links hx⟩
  · obtain ⟨hadd, hr⟩ := hnorm.ok hn
    have hfail := (ends_run hadd.wf hr policy).error hrun'
    obtain ⟨o, hl⟩ := hfail.exists_leaves
    have hold : ∀ {x}, x < t.size → x < t₁.size := fun hx => lt_of_lt_of_le hx hadd.size_le
    refine ⟨fun x hx => by rw [hl.content (hold hx), hadd.get_old hx], ?_⟩
    rcases hfail with hl₀ | ⟨el, hl₁, hel⟩
    · refine .inl fun x hx => ?_
      rw [(hl₀.links (hold hx)).1, (hl₀.links (hold hx)).2]
      exact hadd.links hx
    · exact .inr ⟨req, t₁, el, hn, hl₁, hel⟩

/-- The element `a`, put under `root`, holds a document type declaration, which cannot be
built: the build fails with `a` left in place. -/
theorem build_doctype_under_element :
    let T := (Op.appendChild 0 1).apply ((Op.createElement 0 "root").apply
      (Op.createDocument.apply Tree.empty))
    build (.node 1) (.mapping [("#a", .list [.mapping [("#doctype", .list [])]])]) [] .strict T =
      .error .doctypeUnsupported ((Op.appendChild 1 2).apply ((Op.createElement 0 "a").apply T)) := by
  intro T
  have hfind : findDesignator none [("#a", Spec.list [.mapping [("#doctype", .list [])]])] =
      .ok (some ("#a", .named "a", .list [.mapping [("#doctype", .list [])]])) := rfl
  have hfind₂ : findDesignator none [("#doctype", Spec.list [])] =
      .ok (some ("#doctype", .reserved .doctype, .list [])) := rfl
  have hnorm : normalize (.node 1) (.mapping [("#a", .list [.mapping [("#doctype", .list [])]])])
      [] T = .ok ⟨.parent, 1, 1, 0, .mapping [("#a", .list [.mapping [("#doctype", .list [])]])],
        []⟩ T := rfl
  have hgather : Scope.gather T 1 = .empty := rfl
  have hplace : placeElement ⟨.parent, 1, 0⟩ .empty (.qualified "a")
      (attributeEntries [("#a", Spec.list [.mapping [("#doctype", .list [])]])]) [] .strict T =
      .ok (2, 2, .empty) ((Op.appendChild 1 2).apply ((Op.createElement 0 "a").apply T)) := by
    have hattrs : attributeEntries [("#a", Spec.list [.mapping [("#doctype", .list [])]])] = [] :=
      rfl
    simp only [placeElement, materialize, hattrs, Name.sortEntries, List.mergeSort_nil]
    rfl
  rw [build_apply_of_normalize hnorm]
  simp only [buildSpec, Request.position]
  rw [buildObject_of_named hfind, hgather, bind_apply_of_eq_ok hplace]
  simp only [Spec.children, buildList, buildSpec, buildObject_of_reserved hfind₂, buildReserved]
  rfl

theorem build_error_leaves_doctype :
    let T := (Op.appendChild 0 1).apply ((Op.createElement 0 "root").apply
      (Op.createDocument.apply Tree.empty))
    let T' := (Op.appendChild 1 2).apply ((Op.createElement 0 "a").apply T)
    T.Reachable ∧ (Target.node 1).Within T ∧
      build (.node 1) (.mapping [("#a", .list [.mapping [("#doctype", .list [])]])]) [] .strict T =
        .error .doctypeUnsupported T' ∧
      (∀ x < T.size, (T'.get x).content = (T.get x).content) ∧
        ((∀ x < T.size, T'.parent x = T.parent x ∧ T'.children x = T.children x) ∨
          ∃ req t₁ el, normalize (.node 1)
              (.mapping [("#a", .list [.mapping [("#doctype", .list [])]])]) [] T = .ok req t₁ ∧
            req.position.Leaves t₁ T' (some [el]) ∧ T'.nodeType el = .element) := by
  intro T T'
  have hreach : T.Reachable := .step _ (.step _ (.step _ .empty trivial) trivial) (by decide)
  have hw : (Target.node 1).Within T := by decide
  exact ⟨hreach, hw, build_doctype_under_element, build_error_leaves hreach hw
    build_doctype_under_element⟩

/-- A failed build can change the children of a node that was there before: the element `a` is
appended to `root` before its child, a document type declaration, fails. -/
theorem build_error_keeps_element :
    let T := (Op.appendChild 0 1).apply ((Op.createElement 0 "root").apply
      (Op.createDocument.apply Tree.empty))
    let T' := (Op.appendChild 1 2).apply ((Op.createElement 0 "a").apply T)
    build (.node 1) (.mapping [("#a", .list [.mapping [("#doctype", .list [])]])]) [] .strict T =
        .error .doctypeUnsupported T' ∧
      T.children 1 = [] ∧ T'.children 1 = [2] := by
  intro T T'
  exact ⟨build_doctype_under_element, rfl, rfl⟩

/-- A successful build returns the node its documentation promises (`Returned`): the
reference when nothing new stands at the attachment point, else the last node put there (the
first in `after` mode) for a spec built directly, and what the item, the result or the children
return for a list of one item, a callable or an element with children. This holds when no node
handle the build can reach names an empty fragment of the tree. -/
theorem build_returns {v : NodeId} (hreach : t.Reachable) (hw : target.Within t)
    (hrun : build target spec args policy t = .ok v t') :
    ∃ req t₁, normalize target spec args t = .ok req t₁ ∧
      (req.spec.HandlesFilled req.args t →
        Returned req.args (req.spec.callDepth req.args) req.position req.spec t₁ t' v) := by
  obtain ⟨req, t₁, hn, hrun'⟩ := bind_eq_ok hrun
  obtain ⟨hadd, hr⟩ := (ends_normalize hreach.wellFormed hw spec args).ok hn
  refine ⟨req, t₁, hn, fun hfill => ?_⟩
  exact ((ends_run hadd.wf hr policy).ok hrun').2 (.inl (hfill.of_adds hadd))

/-- Text appended to `root` is what the build returns. -/
theorem build_text_under_element :
    let T := (Op.appendChild 0 1).apply ((Op.createElement 0 "root").apply
      (Op.createDocument.apply Tree.empty))
    build (.node 1) (.string "x") [] .strict T =
      .ok 2 ((Op.appendChild 1 2).apply ((Op.createText 0 "x").apply T)) := by
  intro T
  have hnorm : normalize (.node 1) (.string "x") [] T =
      .ok ⟨.parent, 1, 1, 0, .string "x", []⟩ T := rfl
  rw [build_apply_of_normalize hnorm]
  simp only [buildSpec]
  rfl

theorem build_returns_text :
    let T := (Op.appendChild 0 1).apply ((Op.createElement 0 "root").apply
      (Op.createDocument.apply Tree.empty))
    let T' := (Op.appendChild 1 2).apply ((Op.createText 0 "x").apply T)
    let req : Request := ⟨.parent, 1, 1, 0, .string "x", []⟩
    T.Reachable ∧ (Target.node 1).Within T ∧ build (.node 1) (.string "x") [] .strict T = .ok 2 T' ∧
      normalize (.node 1) (.string "x") [] T = .ok req T ∧ req.spec.HandlesFilled req.args T ∧
      Returned req.args (req.spec.callDepth req.args) req.position req.spec T T' 2 := by
  intro T T' req
  have hreach : T.Reachable := .step _ (.step _ (.step _ .empty trivial) trivial) (by decide)
  have hw : (Target.node 1).Within T := by decide
  have hn : normalize (.node 1) (.string "x") [] T = .ok req T := rfl
  -- a text spec reaches no node handle
  have hfill : req.spec.HandlesFilled req.args T := by
    intro n hr
    rcases hr.cases_head with h | ⟨_, hs, -⟩
    · cases h
    · cases hs
  obtain ⟨req', t₁, hn', hret⟩ := build_returns hreach hw build_text_under_element
  rw [hn] at hn'
  obtain ⟨rfl, rfl⟩ := EStateM.Result.ok.inj hn'
  exact ⟨hreach, hw, build_text_under_element, hn, hfill, hret hfill⟩

/-- A copy of an empty fragment appended to `root` puts nothing in place, yet the build returns
`root`'s last child, `mid`, and not `root`. -/
theorem build_empty_fragment_returns_child :
    let T := (Op.createFragment 0).apply ((Op.appendChild 1 2).apply
      ((Op.createElement 0 "mid").apply ((Op.createElement 0 "root").apply
        (Op.createDocument.apply Tree.empty))))
    let T' := (Op.appendChild 1 4).apply ((Op.cloneNode 3 true).apply T)
    T.nodeType 3 = .fragment ∧ T.children 3 = [] ∧
      build (.node 1) (.node 3) [] .strict T = .ok 2 T' ∧ T'.children 1 = T.children 1 := by
  intro T T'
  have hnorm : normalize (.node 1) (.node 3) [] T = .ok ⟨.parent, 1, 1, 0, .node 3, []⟩ T := rfl
  have hrun : build (.node 1) (.node 3) [] .strict T = .ok 2 T' := by
    rw [build_apply_of_normalize hnorm]
    simp only [buildSpec]
    rfl
  exact ⟨rfl, rfl, hrun, rfl⟩

end Build

end Markup
