import Markup.Proofs.Build.Outcome

/-!
# Built elements gather the scope they were built in

One lemma per way the traced interpreter combines steps carries `Settled` through its mutual
induction (`settles_buildSpecTraced`); an induction along the parents of the finished tree then
reads every recorded scope back as `Scope.gather` (`build_gathers_made_scopes`).
-/

namespace Markup

open Relation Markup.Tree BuildM

/-! ## Mappings a build can reach -/

namespace Spec

/-- Every mapping among the specs a build of `s` can reach satisfies `P`. -/
def Mappings (args : List Spec) (P : List (String × Spec) → Prop) (s : Spec) : Prop :=
  ∀ entries, ReflTransGen (Step args) s (.mapping entries) → P entries

namespace Mappings

variable {args : List Spec} {P : List (String × Spec) → Prop} {s s' : Spec}

theorem step (h : s.Mappings args P) (hs : Step args s s') : s'.Mappings args P :=
  fun entries hr => h entries (.head hs hr)

theorem entries {entries : List (String × Spec)} (h : (Spec.mapping entries).Mappings args P) :
    P entries :=
  h entries .refl

theorem children {entries : List (String × Spec)} (h : (Spec.mapping entries).Mappings args P)
    {k : String} {v : Spec} (hv : (k, v) ∈ entries) : ∀ x ∈ v.children, x.Mappings args P := by
  have hval := h.step (.value hv)
  cases v with
  | list items => exact fun x hx => hval.step (.item hx)
  | _ =>
    intro x hx
    rw [List.mem_singleton.1 hx]
    exact hval

end Mappings

end Spec

theorem DeclaresGatherable.attributeEntries {entries : List (String × Spec)} {args : List Spec}
    (h : DeclaresGatherable entries args) : DeclaresGatherable (attributeEntries entries) args :=
  h.mono fun _ he => (List.mem_filter.1 he).1

theorem Tree.element?_eq_none_of_fragment {t : Tree} {n : NodeId} (h : t.nodeType n = .fragment) :
    t.element? n = none := by
  unfold element?
  unfold nodeType at h
  split
  · next hc => rw [hc] at h; cases h
  · rfl

/-! ## What one step leaves -/

section Steps

variable {t t₀ t₁ t₂ t' : Tree} {pos : Position} {host : NodeId} {σ : Scope} {made : Made}

theorem Start.reference_lt (hs : Start t pos host σ) : pos.reference < t.size := by
  obtain ⟨mode, ref, doc⟩ := pos
  cases mode with
  | parent =>
    obtain rfl : ref = host := hs.hostIn
    exact hs.host_lt
  | _ => exact lt_size_of_parent_eq_some hs.hostIn

/-- What a build at `pos` leaves of the old nodes is growth that may unlink the replaced
reference. -/
theorem Position.Leaves.grows {o : Option (List NodeId)} (h : pos.Leaves t t' o) :
    t.Grows t' pos.gone :=
  ⟨h.size_le, fun _ hx => ⟨h.content hx, fun hg => h.parent hx (.inr hg)⟩⟩

/-- A step that records no element leaves nothing to settle. -/
theorem Settled.of_leaves {o : Option (List NodeId)} (h : pos.Leaves t t' o) :
    Settled t pos host σ [] t' :=
  ⟨h.wf, h.grows, by simp, by simp⟩

/-- No record hangs under a node without children, so any host will do. -/
theorem Placed.of_childless {frag host' E : NodeId} {σE : Scope} (hwf : t.WellFormed)
    (hP : Placed t made frag σ E σE) (hkids : t.children frag = []) :
    Placed t made host' σ E σE := by
  obtain ⟨e, σp, P, he, hp, hin, hns⟩ := hP
  refine ⟨e, σp, P, he, hp, .inl (hin.resolve_right ?_), hns⟩
  rintro ⟨rfl, -⟩
  have hmem := hwf.mem_children.2 hp
  rw [hkids] at hmem
  cases hmem

theorem untraced_eq_ok {x : BuildM NodeId} {r : NodeId} (h : untraced x t = .ok (r, made) t') :
    x t = .ok r t' ∧ made = [] := by
  obtain ⟨a, t₁, hx, hp⟩ := bind_eq_ok h
  cases hp
  exact ⟨hx, rfl⟩

/-- Placing an element made in `σ` records it with the scope `materialize` returned for it, and
a build may then start under the element in that scope. -/
theorem settled_placeElement {tag : TagName} {attrs : List (String × Spec)} {args : List Spec}
    {policy : Policy} {r : NodeId × NodeId × Scope} (hs : Start t pos host σ)
    (hd : DeclaresGatherable attrs args) (h : placeElement pos σ tag attrs args policy t = .ok r t') :
    Settled t pos host σ [(r.1, r.2.2)] t' ∧ Start t' (Position.inside r.1 pos.doc) r.1 r.2.2 := by
  unfold placeElement at h
  obtain ⟨⟨el, σE⟩, t₁, hmat, hrest⟩ := bind_eq_ok h
  obtain ⟨v, t₂, hatt, hret⟩ := bind_eq_ok hrest
  cases hret
  have hm := materialize_scope hs.wf hs.scope hd hmat
  obtain ⟨e, he, hns⟩ := hm.scope
  have hsize₁ : t₁.size = t.size + 1 := hm.size_eq
  have hg₁ : t.Grows t₁ none := Grows.of_get (by rw [hsize₁]; exact Nat.le_succ _) hm.get_old
  obtain ⟨hwf₂, L, hsp⟩ := attach_spliced hm.wf (hsize₁ ▸ Nat.lt_succ_of_lt hs.host_lt)
    (hs.hostIn.of_grows hg₁) hatt
  have hmoved : el ∈ t₁.incoming el := by
    rw [Tree.incoming_of_element? he]
    exact List.mem_singleton_self el
  have hel : el < t'.size := by
    rw [hsp.size_eq, hsize₁, hm.el_eq]
    exact Nat.lt_succ_self _
  refine ⟨⟨hwf₂, hg₁.attach hs.wf hm.wf hm.el_eq.ge hsp, fun m hm' => ?_, fun m hm' => ?_⟩,
    ⟨hwf₂, hel, rfl, hm.no_xmlns⟩⟩
  · rw [List.mem_singleton.1 hm']
    exact ⟨hm.el_eq.ge, hel⟩
  · rw [List.mem_singleton.1 hm']
    exact ⟨e, σ, host, (hsp.element?_eq el).trans he, hsp.parent_moved hmoved, .inr ⟨rfl, rfl⟩,
      hns⟩

/-- The records of a batch built into the new fragment `frag` are settled at `pos` once the
fragment is attached there; when it stayed empty nothing moves, and no record hangs under it. -/
theorem Settled.batch {frag r : NodeId} (hs : Start t₀ pos host σ) (hfrag : t₀.size ≤ frag)
    (hsize : t₀.size ≤ t₁.size) (h : Settled t₁ (Position.inside frag pos.doc) frag σ made t₂)
    (hg : t₀.Grows t₂ none) (htype : t₂.nodeType frag = .fragment)
    (hrun : attachBatch pos frag t₂ = .ok r t') : Settled t₀ pos host σ made t' := by
  have hfresh : ∀ m ∈ made, t₀.size ≤ m.1 ∧ m.1 < t₂.size := fun m hm =>
    ⟨hsize.trans (h.fresh m hm).1, (h.fresh m hm).2⟩
  unfold attachBatch at hrun
  obtain ⟨first, t₃, hread, hrest⟩ := bind_eq_ok hrun
  cases hread
  split at hrest
  · -- the fragment stayed empty
    next hnone =>
    cases hrest
    have hkids : t₂.children frag = [] := by
      simpa [firstChild] using hnone
    exact ⟨h.wf, hg.weaken _, hfresh, fun m hm => (h.placed m hm).of_childless h.wf hkids⟩
  · obtain ⟨hwf', L, hsp⟩ := attach_spliced h.wf (lt_of_lt_of_le hs.host_lt hg.1)
      (hs.hostIn.of_grows hg) hrest
    have hmoved : ∀ {x}, x ∈ t₂.incoming frag ↔ t₂.parent x = some frag := by
      intro x
      rw [incoming, if_pos htype]
      exact h.wf.mem_children
    refine ⟨hwf', hg.attach hs.wf h.wf hfrag hsp, fun m hm => ?_, fun m hm => ?_⟩
    · rw [hsp.size_eq]
      exact hfresh m hm
    · refine (h.placed m hm).unbatch (h.not_mem (element?_eq_none_of_fragment htype))
        (hsp.element?_eq _) ?_
      by_cases hx : m.1 ∈ t₂.incoming frag
      · rw [hsp.parent_moved hx, if_pos (hmoved.1 hx)]
      · -- a record is new, and the node a replacement unlinks is old
        have hgone : some m.1 ≠ pos.gone := fun hgx =>
          Nat.lt_irrefl _ (lt_of_lt_of_le (hs.hostIn.gone_lt hgx.symm) (hfresh m hm).1)
        rw [hsp.parent_other hx, if_neg hgone, if_neg (fun hp => hx (hmoved.2 hp))]

end Steps

/-! ## Traced steps that settle their record -/

section Settles

variable {pos : Position} {host : NodeId} {σ : Scope}

/-- A traced step at `pos`, run on any tree where a build under `host` in the scope `σ` may
start, leaves its record settled when it succeeds. -/
def Settles (pos : Position) (host : NodeId) (σ : Scope) (x : BuildM (NodeId × Made)) : Prop :=
  ∀ t r made t', Start t pos host σ → x t = .ok (r, made) t' → Settled t pos host σ made t'

theorem settles_pure (r : NodeId) : Settles pos host σ (pure (r, [])) := by
  intro t v made t' hs h
  cases h
  exact .refl hs

theorem settles_throw (e : BuildError) : Settles pos host σ (throw e) := by
  intro t v made t' _ h
  cases h

theorem settles_check {α : Type} {r : Except BuildError α} {f : α → BuildM (NodeId × Made)}
    (hf : ∀ a, Settles pos host σ (f a)) : Settles pos host σ (check r >>= f) := by
  intro t v made t' hs h
  obtain ⟨a, t₁, hc, hrun⟩ := bind_eq_ok h
  obtain ⟨-, rfl⟩ := check_eq_ok hc
  exact hf a _ v made t' hs hrun

/-- A step that makes no element settles its empty record when it leaves the old nodes as a
build at `pos` does. -/
theorem settles_untraced {x : BuildM NodeId}
    (hx : ∀ t, Start t pos host σ → ∀ r t', x t = .ok r t' → ∃ o, pos.Leaves t t' o) :
    Settles pos host σ (untraced x) := by
  intro t r made t' hs h
  obtain ⟨hrun, rfl⟩ := untraced_eq_ok h
  obtain ⟨o, hl⟩ := hx t hs r t' hrun
  exact .of_leaves hl

theorem settles_buildText (text : String) : Settles pos host σ (untraced (buildText pos text)) :=
  settles_untraced fun _ hs _ _ hrun =>
    ⟨_, ((pos.ends_buildText hs.wf hs.reference_lt text).ok hrun).1⟩

/-- An element placed at `pos`, then its children, if any, built inside it in the scope
`materialize` returned. -/
theorem settles_placed {tag : TagName} {attrs : List (String × Spec)} {args : List Spec}
    {policy : Policy} {fuel : Nat} (xs : List Spec) (hd : DeclaresGatherable attrs args)
    (hkids : ∀ (r : NodeId × NodeId × Scope) c cs, xs = c :: cs →
      Settles (Position.inside r.1 pos.doc) r.1 r.2.2
        (buildListTraced policy args fuel (Position.inside r.1 pos.doc) r.2.2 (c :: cs))) :
    Settles pos host σ (placeElement pos σ tag attrs args policy >>= fun r =>
      placedTraced policy args fuel pos r xs) := by
  intro t v made t' hs h
  obtain ⟨r, t₁, hplace, hrest⟩ := bind_eq_ok h
  obtain ⟨h₁, hs₁⟩ := settled_placeElement hs hd hplace
  cases xs with
  | nil =>
    cases hrest
    exact h₁
  | cons c cs =>
    obtain ⟨kids, t₂, hk, hret⟩ := bind_eq_ok hrest
    cases hret
    exact h₁.nest (hkids r c cs rfl t₁ _ _ _ hs₁ hk)

/-- A batch: its items are built into a new fragment, which is then attached at `pos`. -/
theorem settles_batch {policy : Policy} {args : List Spec} {fuel : Nat} {x y : Spec}
    {rest : List Spec}
    (hfirst : ∀ frag, Settles (Position.inside frag pos.doc) frag σ
      (buildSpecTraced policy args fuel (Position.inside frag pos.doc) σ x))
    (hmore : ∀ frag t made t', Start t (Position.inside frag pos.doc) frag σ →
      buildItemsTraced policy args fuel (Position.inside frag pos.doc) σ (y :: rest) t =
        .ok made t' → Settled t (Position.inside frag pos.doc) frag σ made t') :
    Settles pos host σ (buildListTraced policy args fuel pos σ (x :: y :: rest)) := by
  intro t v made t' hs h
  simp only [buildListTraced] at h
  obtain ⟨frag, t₁, halloc, h⟩ := bind_eq_ok h
  obtain ⟨rfl, rfl⟩ : frag = t.size ∧ t₁ = (t.alloc .fragment (some pos.doc)).1 := by
    cases halloc
    exact ⟨rfl, rfl⟩
  obtain ⟨first, t₂, hx, h⟩ := bind_eq_ok h
  obtain ⟨more, t₃, hy, h⟩ := bind_eq_ok h
  obtain ⟨r, t₄, hatt, hret⟩ := bind_eq_ok h
  cases hret
  -- the items go into the new fragment
  have hs₁ : Start (t.alloc .fragment (some pos.doc)).1 (Position.inside t.size pos.doc) t.size σ :=
    ⟨hs.wf.alloc _ _ (fun _ he => by cases he), by simp, rfl, hs.scope⟩
  have h₂ := hfirst _ _ _ _ _ hs₁ hx
  have h₃ := h₂.append (hmore _ _ _ _ (hs₁.of_settled h₂ rfl) hy) rfl
  have hg : t.Grows t₃ none := (Grows.alloc t .fragment (some pos.doc)).trans h₃.grows
  have htype : t₃.nodeType t.size = .fragment := by
    rw [h₃.grows.nodeType_eq (by simp), nodeType_alloc, if_pos rfl]
    rfl
  exact h₃.batch hs le_rfl (by simp) hg htype hatt

end Settles

/-! ## The induction -/

/-- A traced build settles its record, whatever host it starts under, when every mapping it can
reach declares namespaces that a gathered scope reads back alike. -/
theorem settles_buildSpecTraced (policy : Policy) (args : List Spec) (fuel : Nat) (pos : Position)
    (scope : Scope) (s : Spec) (hs : s.Mappings args (DeclaresGatherable · args)) (host : NodeId) :
    Settles pos host scope (buildSpecTraced policy args fuel pos scope s) := by
  refine buildSpecTraced.induct policy args
    (fun fuel pos scope s => s.Mappings args (DeclaresGatherable · args) → ∀ host,
      Settles pos host scope (buildSpecTraced policy args fuel pos scope s))
    (fun fuel pos scope entries =>
      (Spec.mapping entries).Mappings args (DeclaresGatherable · args) → ∀ host,
        Settles pos host scope (buildObjectTraced policy args fuel pos scope entries))
    (fun fuel pos scope items => (∀ x ∈ items, x.Mappings args (DeclaresGatherable · args)) →
      ∀ host, Settles pos host scope (buildListTraced policy args fuel pos scope items))
    (fun fuel pos scope items => pos.gone = none →
      (∀ x ∈ items, x.Mappings args (DeclaresGatherable · args)) → ∀ host t made t',
        Start t pos host scope → buildItemsTraced policy args fuel pos scope items t = .ok made t' →
        Settled t pos host scope made t')
    ?null ?list ?stop ?call ?node ?empty ?object ?bool ?number ?string ?failed ?declaration
    ?shorthand ?unparsed ?unmarked ?reserved ?bare ?element ?named ?nil ?single ?batch ?none
    ?some fuel pos scope s hs host
  case null =>
    intro fuel pos scope _ host
    simp only [buildSpecTraced]
    exact settles_pure _
  case list =>
    intro fuel pos scope items ih hs host
    simp only [buildSpecTraced]
    exact ih (fun x hx => hs.step (.item hx)) host
  case stop =>
    intro pos scope body _ host
    simp only [buildSpecTraced]
    exact settles_pure _
  case call =>
    intro pos scope body fuel ih hs host
    simp only [buildSpecTraced]
    exact ih (hs.step (.call body)) host
  case node =>
    intro fuel pos scope n _ host
    simp only [buildSpecTraced]
    refine settles_untraced fun t hs _ _ hrun => ?_
    obtain ⟨ins, hl, -⟩ := (pos.ends_clone hs.wf hs.reference_lt n).ok hrun
    exact ⟨_, hl⟩
  case empty =>
    intro fuel pos scope _ host
    simp only [buildSpecTraced]
    exact settles_buildText _
  case object =>
    intro fuel pos scope e es ih hs host
    simp only [buildSpecTraced]
    exact ih hs host
  case bool =>
    intro fuel pos scope b _ host
    simp only [buildSpecTraced]
    exact settles_buildText _
  case number =>
    intro fuel pos scope n _ host
    simp only [buildSpecTraced]
    exact settles_buildText _
  case string =>
    intro fuel pos scope str _ host
    simp only [buildSpecTraced]
    exact settles_buildText _
  case failed =>
    intro fuel pos scope entries e hfind _ host
    rw [buildObjectTraced_of_error hfind]
    exact settles_throw e
  case declaration =>
    intro fuel pos scope key value q hq hdecl hfind _ _ _ host
    rw [buildObjectTraced_of_missing hfind fun q' hq' => by
      rw [hq, Option.some.injEq] at hq'
      rw [← hq']
      exact hdecl]
    exact settles_throw _
  case shorthand =>
    intro fuel pos scope key value q hq hdecl hfind hmem ih hs host
    rw [buildObjectTraced_of_shorthand hfind hq (Bool.eq_false_iff.2 hdecl)]
    exact settles_placed _ (fun _ he => by cases he) fun r c cs hc =>
      ih r c cs hc (fun x hx => hs.children hmem x (hc ▸ hx)) r.1
  case unparsed =>
    intro fuel pos scope key value hq hfind _ _ host
    rw [buildObjectTraced_of_missing hfind fun q' hq' => by rw [hq] at hq'; cases hq']
    exact settles_throw _
  case unmarked =>
    intro fuel pos scope entries hfind hne _ host
    rw [buildObjectTraced_of_unmarked hfind hne]
    exact settles_throw _
  case reserved =>
    intro fuel pos scope entries key value kind hfind _ _ host
    rw [buildObjectTraced_of_reserved hfind]
    exact settles_untraced fun _ hs _ _ hrun =>
      ⟨_, ((pos.ends_buildReserved hs.wf hs.reference_lt kind _ _ args).ok hrun).1⟩
  case bare =>
    intro fuel pos scope entries key value hchildren hfind _ _ host
    rw [buildObjectTraced_of_bare hfind hchildren]
    exact settles_throw _
  case element =>
    intro fuel pos scope entries key value c cs hchildren hfind hmem ih hs host
    rw [buildObjectTraced_of_element hfind hchildren]
    refine settles_check fun tag => settles_placed _ hs.entries.attributeEntries fun r d ds hd =>
      ih r d ds hd (fun x hx => hs.children hmem x ?_) r.1
    rw [hchildren]
    exact List.mem_cons_of_mem _ (hd ▸ hx)
  case named =>
    intro fuel pos scope entries key value name hfind hmem ih hs host
    rw [buildObjectTraced_of_named hfind]
    exact settles_placed _ hs.entries.attributeEntries fun r c cs hc =>
      ih r c cs hc (fun x hx => hs.children hmem x (hc ▸ hx)) r.1
  case nil =>
    intro fuel pos scope _ host
    simp only [buildListTraced]
    exact settles_pure _
  case single =>
    intro fuel pos scope x ih hs host
    simp only [buildListTraced]
    exact ih (hs x (List.mem_singleton_self x)) host
  case batch =>
    intro fuel pos scope x y rest ihx ihrest hs host
    exact settles_batch (fun frag => ihx frag (hs x List.mem_cons_self) frag)
      fun frag t made t' hs₁ hrun =>
        ihrest frag rfl (fun z hz => hs z (List.mem_cons_of_mem _ hz)) frag t made t' hs₁ hrun
  case none =>
    intro fuel pos scope _ _ host t made t' hs hrun
    simp only [buildItemsTraced] at hrun
    cases hrun
    exact .refl hs
  case some =>
    intro fuel pos scope x rest ihx ihrest hg hs host t made t' hst hrun
    simp only [buildItemsTraced] at hrun
    obtain ⟨first, t₁, h₁, hrun⟩ := bind_eq_ok hrun
    obtain ⟨more, t₂, h₂, hret⟩ := bind_eq_ok hrun
    cases hret
    have hs₁ := ihx (hs x List.mem_cons_self) host t first.1 first.2 t₁ hst h₁
    exact hs₁.append (ihrest hg (fun z hz => hs z (List.mem_cons_of_mem _ hz)) host t₁ more _
      (hst.of_settled hs₁ hg) h₂) hg

/-! ## Reading the scopes back -/

section Gather

variable {t₀ t : Tree} {pos : Position} {host : NodeId} {σ : Scope} {made : Made}

/-- A build leaves the scope gathered at its host as it was: no ancestor of the host moves. -/
theorem Settled.gather_host (hs : Start t₀ pos host σ) (h : Settled t₀ pos host σ made t) :
    Scope.gather t host = Scope.gather t₀ host :=
  Scope.gather_of_grows hs.wf h.grows hs.host_lt hs.not_gone

/-- Every element a settled build recorded gathers, in the tree the build left, the scope it was
built in, once the host gathers the build's own scope. The induction runs along the parents of
that tree: an element's parent is recorded, or is the host. -/
theorem Settled.gather_made (h : Settled t₀ pos host σ made t)
    (hhost : (Scope.gather t host).namespaceOf? = σ.namespaceOf?) :
    ∀ m ∈ made, (Scope.gather t m.1).namespaceOf? = m.2.namespaceOf? := by
  have key : ∀ x σE, (x, σE) ∈ made → (Scope.gather t x).namespaceOf? = σE.namespaceOf? := by
    intro x
    refine h.wf.acyclic.induction x (C := fun x => ∀ σE, (x, σE) ∈ made →
      (Scope.gather t x).namespaceOf? = σE.namespaceOf?) ?_
    intro x ih σE hx
    obtain ⟨e, σp, P, he, hp, hin, hns⟩ := h.placed _ hx
    rw [Scope.namespaceOf?_gather h.wf he hp, hns]
    rcases hin with hin | ⟨rfl, rfl⟩
    · rw [ih P hp σp hin]
    · rw [hhost]
  exact fun m hm => key m.1 m.2 hm

end Gather

/-! ## Builds at a target -/

theorem Scope.noXmlnsBinding_empty : Scope.empty.NoXmlnsBinding := by
  intro p hp
  unfold Scope.namespaceOf? Scope.resolve? at hp
  rw [get?_empty] at hp
  by_cases hxml : p = "xml"
  · subst hxml
    exact absurd hp (by decide)
  · simp [hxml] at hp

/-- The pseudo anchor a target names, whose ancestry would give the starting scope instead of
the node the build attaches under. -/
def Target.pseudo : Target → Option NodeId
  | .node _ => none
  | .options o => o.pseudo

/-- With no pseudo anchor, a request's anchor is the node its position attaches under. -/
theorem ends_normalize_anchor {t : Tree} {target : Target} (hp : target.pseudo = none)
    (spec : Spec) (args : List Spec) :
    Ends (normalize target spec args) t (fun req t₁ => req.position.HostIn t₁ req.anchor)
      (fun _ => True) := by
  have hget : (get : BuildM Tree) = read id := rfl
  have hany : ∀ {α : Type} (x : BuildM α) (t₁ : Tree), Ends x t₁ (fun _ _ => True) (fun _ => True) :=
    fun _ _ => ⟨fun _ => trivial, fun _ => trivial⟩
  cases target with
  | node n =>
    unfold normalize
    exact (hany (documentOf n) t).bind fun _ _ _ => ends_pure _ rfl
  | options o =>
    have hp : o.pseudo = none := hp
    unfold normalize
    dsimp only
    rw [hget]
    refine (ends_read_eq id).bind fun t₁ t₂ h => ?_
    obtain ⟨rfl, rfl⟩ := h
    cases checkBindings t₂ none o.bindings with
    | error e => exact ends_throw_bind (E := fun _ => True) trivial
    | ok bound =>
      dsimp only
      refine ends_pure_bind ?_
      cases bound with
      | none =>
        dsimp only
        rw [hp]
        cases o.doc with
        | some d => exact ends_pure_bind (ends_pure _ rfl)
        | none => exact (hany _ t₂).bind fun _ _ _ => ends_pure _ rfl
      | some b =>
        obtain ⟨mode, ref⟩ := b
        have hparent : ∀ (m : Mode) t₃, Ends (m.parentOf ref) t₃
            (fun a t₄ => t₄ = t₃ ∧ t₃.parent ref = some a) (fun _ => True) := fun m t₃ =>
          (Mode.ends_parentOf m ref t₃).mono (fun _ _ h => h) fun _ _ => trivial
        dsimp only
        rw [hp]
        -- the document may be new; the anchor is the reference, or the reference's parent
        cases mode <;> cases o.doc <;> dsimp only <;> refine (hany _ t₂).bind fun _ t₃ _ => ?_
        · exact ends_pure_bind (ends_pure _ rfl)
        · exact ends_pure_bind (ends_pure _ rfl)
        all_goals
          refine (hparent _ t₃).bind fun _ t₄ h => ?_
          rw [h.1]
          exact ends_pure _ h.2

/-- Every element a build makes gathers, in the tree the build leaves, the scope it was built in:
read at any prefix, the scope `Scope.gather` finds at the element is the scope `materialize`
returned for it, the one its children were built in, an empty URI counting as none. This holds
for a build with no pseudo anchor on a reachable tree, when the scope the build starts in binds
no prefix to the namespace of declarations and every mapping the build can reach declares
namespaces that a gathered scope reads back alike: with no blanks around the URI, none of them
the namespace of declarations, and no declaration of the prefix `xmlns`. -/
theorem buildTraced_gathers_made_scopes {target : Target} {spec : Spec} {args : List Spec}
    {policy : Policy} {t t' : Tree} {v : NodeId} {made : Made} (hreach : t.Reachable)
    (hw : target.Within t) (hp : target.pseudo = none)
    (hrun : buildTraced target spec args policy t = .ok (v, made) t') :
    ∃ req t₁, normalize target spec args t = .ok req t₁ ∧
      ((Scope.gather t₁ req.anchor).NoXmlnsBinding →
        req.spec.Mappings req.args (DeclaresGatherable · req.args) →
        ∀ m ∈ made, (Scope.gather t' m.1).namespaceOf? = m.2.namespaceOf?) := by
  obtain ⟨req, t₁, hn, hrun'⟩ := bind_eq_ok hrun
  obtain ⟨hadd, hr⟩ := (ends_normalize hreach.wellFormed hw spec args).ok hn
  have hin := (ends_normalize_anchor hp spec args).ok hn
  refine ⟨req, t₁, hn, fun hns hdecl => ?_⟩
  unfold runTraced at hrun'
  obtain ⟨σ, t₂, hread, hbuild⟩ := bind_eq_ok hrun'
  cases hread
  have hs : Start t₁ req.position req.anchor (Scope.gather t₁ req.anchor) :=
    ⟨hadd.wf, hin.lt_size hadd.wf hr, hin, hns⟩
  have h := settles_buildSpecTraced policy req.args _ req.position _ req.spec hdecl req.anchor
    t₁ v made t' hs hbuild
  exact h.gather_made (by rw [h.gather_host hs])

/-- Every element a successful build makes gathers, in the tree the build leaves, the scope it
was built in, under the conditions of `buildTraced_gathers_made_scopes`. The elements a build
makes are the record of its traced run, which erases to the build. -/
theorem build_gathers_made_scopes {target : Target} {spec : Spec} {args : List Spec}
    {policy : Policy} {t t' : Tree} {v : NodeId} (hreach : t.Reachable)
    (hw : target.Within t) (hp : target.pseudo = none)
    (hrun : build target spec args policy t = .ok v t') :
    ∃ made, buildTraced target spec args policy t = .ok (v, made) t' ∧
      ∃ req t₁, normalize target spec args t = .ok req t₁ ∧
        ((Scope.gather t₁ req.anchor).NoXmlnsBinding →
          req.spec.Mappings req.args (DeclaresGatherable · req.args) →
          ∀ m ∈ made, (Scope.gather t' m.1).namespaceOf? = m.2.namespaceOf?) := by
  obtain ⟨made, htraced⟩ := buildTraced_of_build hrun
  exact ⟨made, htraced, buildTraced_gathers_made_scopes hreach hw hp htraced⟩

/-- An element declaring the prefix `p`, built into a new document: its record holds the scope
binding `p`, and the tree gathers the same scope at the element. -/
theorem build_gathers_declared_prefix :
    let T := Op.createDocument.apply Tree.empty
    let spec := Spec.mapping [("#a", .list []), ("xmlns:p", .string "urn:p")]
    let σ : Scope := ⟨[("p", "urn:p")]⟩
    let T' : Tree := ⟨#[⟨.document, none, none, [1]⟩,
      ⟨.element ⟨none, "a", none, [⟨some "xmlns", "p", some xmlnsNamespace, "urn:p"⟩]⟩,
        some 0, some 0, []⟩]⟩
    T.Reachable ∧ (Target.node 0).Within T ∧ (Target.node 0).pseudo = none ∧
      build (.node 0) spec [] .strict T = .ok 1 T' ∧
      buildTraced (.node 0) spec [] .strict T = .ok (1, [(1, σ)]) T' ∧
      (Scope.gather T' 1).namespaceOf? = σ.namespaceOf? := by
  intro T spec σ T'
  have hreach : T.Reachable := .step _ .empty trivial
  have hw : (Target.node 0).Within T := by decide
  have hnorm : normalize (.node 0) spec [] T = .ok ⟨.parent, 0, 0, 0, spec, []⟩ T := rfl
  have hrun : buildTraced (.node 0) spec [] .strict T = .ok (1, [(1, σ)]) T' := by
    unfold buildTraced
    rw [bind_apply_of_eq_ok hnorm]
    unfold runTraced
    have hgather : (BuildM.read fun x => Scope.gather x 0) T = .ok .empty T := by
      show EStateM.Result.ok (Scope.gather T 0) T = _
      rw [Scope.gather_of_element?_eq_none (by rfl)]
    rw [bind_apply_of_eq_ok hgather]
    have hfind : findDesignator none [("#a", .list []), ("xmlns:p", .string "urn:p")] =
        .ok (some ("#a", .named "a", .list [])) := by rfl
    have hrole₁ : KeyRole.ofKey "#a" = .designator (.named "a") := rfl
    have hrole₂ : KeyRole.ofKey "xmlns:p" = .attribute ⟨some "xmlns", "p"⟩ := rfl
    have hattrs : attributeEntries [("#a", Spec.list []), ("xmlns:p", .string "urn:p")] =
        [("xmlns:p", .string "urn:p")] := by
      simp only [attributeEntries, List.filter_cons, List.filter_nil, hrole₁, hrole₂]
      rfl
    have hsort : Name.sortEntries [("xmlns:p", Spec.string "urn:p")] = [("xmlns:p", .string "urn:p")] := by
      simp [Name.sortEntries]
    simp only [spec, buildSpecTraced]
    rw [buildObjectTraced_of_named hfind]
    simp only [hattrs, placeElement, materialize, hsort, Scope.declare, List.foldl_cons,
      List.foldl_nil, List.forM, setAttrEntry, Spec.flatten_string]
    have hresolve : (TagName.qualified "a").resolve = .ok ("a", "") := rfl
    have hdeclares : Name.declares? "xmlns:p" = some "p" := rfl
    have hparse : QName.parse? "xmlns:p" = some ⟨some "xmlns", "p"⟩ := rfl
    have hσ : (Scope.empty.bind "p" (Text.trim "urn:p")) = σ := by decide
    have hns : σ.namespaceOf? "" = none := by decide
    have hdecl : QName.isDeclaration ⟨some "xmlns", "p"⟩ = true := rfl
    have hempty : ("" : String).isEmpty = true := rfl
    simp only [hresolve, hdeclares, hparse, hσ, hns, hdecl, BuildM.check, pure_bind, bind_assoc,
      hempty, Bool.not_true, Bool.false_and, Bool.false_eq_true, if_false, if_true]
    have hmake : (make fun x => x.createElement 0 "a") T =
        .ok 1 (T.alloc (.element ⟨none, "a", none, []⟩) (some 0)).1 := rfl
    rw [bind_apply_of_eq_ok hmake]
    rfl
  have hbuild := build_of_buildTraced hrun
  refine ⟨hreach, hw, rfl, hbuild, hrun, ?_⟩
  obtain ⟨made, htraced, req, t₁, hn, himp⟩ := build_gathers_made_scopes hreach hw rfl hbuild
  rw [hrun] at htraced
  obtain ⟨hmade, -⟩ := EStateM.Result.ok.inj htraced
  cases hmade
  rw [hnorm] at hn
  cases hn
  -- the build starts in the empty scope, and its one mapping declares `p` plainly
  have hstart : (Scope.gather T 0).NoXmlnsBinding := by
    rw [Scope.gather_of_element?_eq_none (by rfl)]
    exact Scope.noXmlnsBinding_empty
  have hmap : (Spec.mapping [("#a", .list []), ("xmlns:p", .string "urn:p")]).Mappings []
      (DeclaresGatherable · []) := by
    intro entries hr
    rcases hr.cases_head with heq | ⟨v, hstep, hv⟩
    · cases heq
      intro e he p hp
      simp only [List.mem_cons, List.mem_nil_iff, or_false] at he
      rcases he with rfl | rfl
      · cases hp
      · cases hp
        refine ⟨by decide, fun v hv => ?_⟩
        rw [Spec.flatten_string, Option.some.injEq] at hv
        subst hv
        exact ⟨by decide, by decide⟩
    · cases hstep with
      | value hkv =>
        simp only [List.mem_cons, List.mem_nil_iff, or_false, Prod.mk.injEq] at hkv
        rcases hkv with ⟨-, rfl⟩ | ⟨-, rfl⟩
        · rcases hv.cases_head with heq | ⟨w, hstep', -⟩
          · cases heq
          · cases hstep' with
            | item hmem => cases hmem
        · rcases hv.cases_head with heq | ⟨w, hstep', -⟩
          · cases heq
          · cases hstep'
  exact himp hstart hmap (1, σ) (List.mem_singleton_self _)

end Markup
