import Markup.Proofs.Namespace.Records
import Markup.Proofs.Build.Trace

/-!
# Records of built elements and their scopes

`Settled` is the invariant the traced interpreter keeps on its record of made elements: each one
sits under an element recorded before it, or under the node the build attaches to, and its scope
is its own bindings read before its parent's. `Tree.Grows` says what a build leaves of the tree
it started from.
-/

namespace Markup

open Relation Markup.Tree BuildM

/-! ## Where a build attaches -/

namespace Position

/-- The node a position attaches under: the reference in parent mode, its parent otherwise. -/
def HostIn (pos : Position) (t : Tree) (host : NodeId) : Prop :=
  match pos.mode with
  | .parent => pos.reference = host
  | _ => t.parent pos.reference = some host

/-- The node an attachment at the position unlinks: the reference, when it is replaced. -/
def gone (pos : Position) : Option NodeId :=
  match pos.mode with
  | .replace => some pos.reference
  | _ => none

@[simp] theorem gone_inside (n doc : NodeId) : (Position.inside n doc).gone = none := rfl

end Position

namespace Tree

/-- `t` grew from `t₀`: it is no smaller, and every node of `t₀` keeps its content and, unless it
is `gone`, its parent. -/
def Grows (t₀ t : Tree) (gone : Option NodeId) : Prop :=
  t₀.size ≤ t.size ∧ ∀ x < t₀.size, (t.get x).content = (t₀.get x).content ∧
    (some x ≠ gone → t.parent x = t₀.parent x)

namespace Grows

variable {t₀ t t' : Tree} {gone : Option NodeId} {x : NodeId}

theorem refl (t : Tree) (gone : Option NodeId) : t.Grows t gone :=
  ⟨le_refl _, fun _ _ => ⟨rfl, fun _ => rfl⟩⟩

theorem of_get (hsize : t₀.size ≤ t.size) (hget : ∀ x < t₀.size, t.get x = t₀.get x) :
    t₀.Grows t gone :=
  ⟨hsize, fun x hx => by simp only [parent, hget x hx, implies_true, and_self]⟩

theorem alloc (t : Tree) (c : Content) (o : Option NodeId) : t.Grows (t.alloc c o).1 gone :=
  of_get (by simp) fun _ hx => get_alloc_of_lt c o hx

theorem weaken (h : t₀.Grows t none) (gone : Option NodeId) : t₀.Grows t gone :=
  ⟨h.1, fun x hx => ⟨(h.2 x hx).1, fun _ => (h.2 x hx).2 (by simp)⟩⟩

theorem element?_eq (h : t₀.Grows t gone) (hx : x < t₀.size) : t.element? x = t₀.element? x := by
  simp only [element?, (h.2 x hx).1]

theorem parent_eq (h : t₀.Grows t gone) (hx : x < t₀.size) (hg : some x ≠ gone) :
    t.parent x = t₀.parent x :=
  (h.2 x hx).2 hg

theorem nodeType_eq (h : t₀.Grows t gone) (hx : x < t₀.size) : t.nodeType x = t₀.nodeType x := by
  simp only [nodeType, (h.2 x hx).1]

/-- Growth that unlinks nothing, then growth that may unlink `gone`. -/
theorem trans (h : t₀.Grows t none) (h' : t.Grows t' gone) : t₀.Grows t' gone :=
  ⟨h.1.trans h'.1, fun x hx =>
    ⟨(h'.2 x (lt_of_lt_of_le hx h.1)).1.trans (h.2 x hx).1,
      fun hg => ((h'.2 x (lt_of_lt_of_le hx h.1)).2 hg).trans ((h.2 x hx).2 (by simp))⟩⟩

/-- Growth that may unlink `gone`, then growth that unlinks nothing. -/
theorem trans_none (h : t₀.Grows t gone) (h' : t.Grows t' none) : t₀.Grows t' gone :=
  ⟨h.1.trans h'.1, fun x hx =>
    ⟨(h'.2 x (lt_of_lt_of_le hx h.1)).1.trans (h.2 x hx).1,
      fun hg => ((h'.2 x (lt_of_lt_of_le hx h.1)).2 (by simp)).trans ((h.2 x hx).2 hg)⟩⟩

end Grows

theorem WellFormed.lt_size_of_ancestor {t : Tree} {a n : NodeId} (h : t.WellFormed)
    (hn : n < t.size) (ha : ReflTransGen t.ParentOf a n) : a < t.size := by
  rcases ha.cases_head with rfl | ⟨b, hab, -⟩
  · exact hn
  · exact h.parent_lt hab

end Tree

/-- Growth that keeps a node's ancestors, and their parents, keeps the scope gathered at it. -/
theorem Scope.gather_of_grows {t₀ t : Tree} {gone : Option NodeId} {n : NodeId}
    (h : t₀.WellFormed) (hg : t₀.Grows t gone) (hn : n < t₀.size)
    (hgone : ∀ a, ReflTransGen t₀.ParentOf a n → some a ≠ gone) : gather t n = gather t₀ n :=
  gather_congr h hg.1 fun a ha =>
    have hlt := h.lt_size_of_ancestor hn ha
    ⟨hg.element?_eq hlt, hg.parent_eq hlt (hgone a ha)⟩

theorem Tree.incoming_of_element? {t : Tree} {n : NodeId} {e : Element}
    (he : t.element? n = some e) : t.incoming n = [n] := by
  unfold element? at he
  have hfr : t.nodeType n ≠ .fragment := by
    unfold nodeType
    split at he
    · next hc => rw [hc]; simp [Content.type]
    · cases he
  simp [incoming, hfr]

/-! ## Attaching -/

theorem Position.HostIn.of_grows {pos : Position} {t₀ t : Tree} {host : NodeId}
    (hin : pos.HostIn t₀ host) (hg : t₀.Grows t none) : pos.HostIn t host := by
  obtain ⟨mode, ref, doc⟩ := pos
  cases mode with
  | parent => exact hin
  | _ => exact (hg.parent_eq (lt_size_of_parent_eq_some hin) (by simp)).trans hin

/-- The node a replacement unlinks is the reference, which has a parent. -/
theorem Position.HostIn.gone_lt {pos : Position} {t : Tree} {host : NodeId}
    (hin : pos.HostIn t host) {x : NodeId} (hx : pos.gone = some x) : x < t.size := by
  obtain ⟨mode, ref, doc⟩ := pos
  cases mode <;> simp only [Position.gone, reduceCtorEq, Option.some.injEq] at hx
  subst hx
  exact lt_size_of_parent_eq_some hin

namespace BuildM

variable {α β : Type} {t t' : Tree}

theorem read_bind_pure_eq_ok {f : Tree → α} {g : α → β} {b : β}
    (h : (read f >>= fun a => pure (g a)) t = .ok b t') : t' = t := by
  obtain ⟨_, _, hr, hp⟩ := bind_eq_ok h
  cases hr
  cases hp
  rfl

end BuildM

theorem Mode.parentOf_eq_ok {mode : Mode} {ref p : NodeId} {t t' : Tree}
    (h : mode.parentOf ref t = .ok p t') : t.parent ref = some p ∧ t' = t := by
  unfold Mode.parentOf at h
  obtain ⟨q, t₁, hr, hk⟩ := bind_eq_ok h
  cases hr
  cases hq : t.parent ref with
  | none => simp only [hq] at hk; cases hk
  | some p' =>
    simp only [hq] at hk
    cases hk
    exact ⟨rfl, rfl⟩

/-- Attaching under the host splices the incoming nodes into the host's children, unlinking
the reference when it is replaced. -/
theorem attach_spliced {pos : Position} {t t' : Tree} {host n r : NodeId} (hwf : t.WellFormed)
    (hhost : host < t.size) (hin : pos.HostIn t host)
    (h : pos.mode.attach n pos.reference t = .ok r t') :
    t'.WellFormed ∧ ∃ L, Spliced t t' host (t.incoming n) L pos.gone := by
  obtain ⟨mode, ref, doc⟩ := pos
  cases mode with
  | parent =>
    obtain rfl : ref = host := hin
    obtain ⟨_, t₁, hedit, hrest⟩ := bind_eq_ok h
    have he := edit_eq_ok hedit
    obtain rfl := read_bind_pure_eq_ok hrest
    exact ⟨hwf.appendChild hhost he, _, appendChild_spliced hwf hhost he⟩
  | before =>
    have hin : t.parent ref = some host := hin
    obtain ⟨p, t₁, hp, hrest⟩ := bind_eq_ok h
    obtain ⟨hpar, rfl⟩ := Mode.parentOf_eq_ok hp
    obtain rfl : host = p := Option.some.inj (hin.symm.trans hpar)
    obtain ⟨_, t₂, hedit, hrest⟩ := bind_eq_ok hrest
    have he := edit_eq_ok hedit
    obtain rfl := read_bind_pure_eq_ok hrest
    exact ⟨hwf.insertBefore hhost he, _, insertBefore_spliced hwf hhost he⟩
  | after =>
    have hin : t.parent ref = some host := hin
    obtain ⟨p, t₁, hp, hrest⟩ := bind_eq_ok h
    obtain ⟨hpar, rfl⟩ := Mode.parentOf_eq_ok hp
    obtain rfl : host = p := Option.some.inj (hin.symm.trans hpar)
    obtain ⟨next, t₂, hnext, hrest⟩ := bind_eq_ok hrest
    cases hnext
    obtain ⟨_, t₃, hedit, hrest⟩ := bind_eq_ok hrest
    have he := edit_eq_ok hedit
    obtain rfl := read_bind_pure_eq_ok hrest
    exact ⟨hwf.insertBefore hhost he, _, insertBefore_spliced hwf hhost he⟩
  | replace =>
    have hin : t.parent ref = some host := hin
    obtain ⟨last, t₁, hlast, hrest⟩ := bind_eq_ok h
    cases hlast
    obtain ⟨p, t₂, hp, hrest⟩ := bind_eq_ok hrest
    obtain ⟨hpar, rfl⟩ := Mode.parentOf_eq_ok hp
    obtain rfl : host = p := Option.some.inj (hin.symm.trans hpar)
    obtain ⟨_, t₃, hedit, hret⟩ := bind_eq_ok hrest
    have he := edit_eq_ok hedit
    cases hret
    exact ⟨hwf.replaceChild hhost he, _, replaceChild_spliced hwf hhost he⟩

/-- Attaching a node made after `t₀` moves no node of `t₀`: the tree still grows from `t₀`,
unlinking at most the replaced reference. -/
theorem Tree.Grows.attach {t₀ t t' : Tree} {host n : NodeId} {L : List NodeId}
    {gone : Option NodeId} (h₀ : t₀.WellFormed) (hwf : t.WellFormed) (hg : t₀.Grows t none)
    (hn : t₀.size ≤ n) (hs : Spliced t t' host (t.incoming n) L gone) : t₀.Grows t' gone := by
  refine ⟨hg.1.trans hs.size_eq.ge, fun x hx => ⟨(hs.content_eq x).trans (hg.2 x hx).1, ?_⟩⟩
  intro hgx
  -- an old node is neither the new node nor a child of it
  have hxin : x ∉ t.incoming n := by
    intro hmem
    unfold incoming at hmem
    split at hmem
    · have hp : t₀.parent x = some n :=
        (hg.parent_eq hx (by simp)).symm.trans (hwf.mem_children.1 hmem)
      exact absurd (h₀.parent_lt hp) (Nat.not_lt.2 hn)
    · rw [List.mem_singleton] at hmem
      omega
  rw [hs.parent_other hxin, if_neg hgx]
  exact hg.parent_eq hx (by simp)

/-! ## The invariant of a build -/

/-- Where a build starts: a well-formed tree, a host in it that the position attaches under, and
a scope that binds no prefix to the namespace of declarations. -/
structure Start (t : Tree) (pos : Position) (host : NodeId) (σ : Scope) : Prop where
  wf : t.WellFormed
  host_lt : host < t.size
  hostIn : pos.HostIn t host
  scope : σ.NoXmlnsBinding

/-- How an element recorded with the scope `σE` sits in `t`. Its parent is recorded with a scope
`σp`, or is the host and `σp` is the build's scope `σ`; and `σE` reads the element's own bindings
before `σp`. -/
def Placed (t : Tree) (made : Made) (host : NodeId) (σ : Scope) (E : NodeId) (σE : Scope) : Prop :=
  ∃ e σp P, t.element? E = some e ∧ t.parent E = some P ∧ ((P, σp) ∈ made ∨ (P = host ∧ σp = σ)) ∧
    σE.namespaceOf? = Scope.namespaceThrough e.binding? σp.namespaceOf?

/-- What a build from `t₀` at `pos` leaves: a well-formed tree grown from `t₀`, and a record of
new elements, each placed. -/
structure Settled (t₀ : Tree) (pos : Position) (host : NodeId) (σ : Scope) (made : Made)
    (t : Tree) : Prop where
  wf : t.WellFormed
  grows : t₀.Grows t pos.gone
  fresh : ∀ m ∈ made, t₀.size ≤ m.1 ∧ m.1 < t.size
  placed : ∀ m ∈ made, Placed t made host σ m.1 m.2

section

variable {t₀ t₁ t₂ t t' : Tree} {pos : Position} {host : NodeId} {σ : Scope} {made : Made}

namespace Placed

variable {E : NodeId} {σE : Scope}

/-- More records, or a host that is itself recorded with the build's scope, keep an element
placed. -/
theorem mono {made' : Made} {host' : NodeId} {σ' : Scope} (hP : Placed t made host σ E σE)
    (hsub : ∀ m ∈ made, m ∈ made') (hhost : (host, σ) ∈ made' ∨ (host = host' ∧ σ = σ')) :
    Placed t made' host' σ' E σE := by
  obtain ⟨e, σp, P, he, hp, hin, hns⟩ := hP
  refine ⟨e, σp, P, he, hp, ?_, hns⟩
  rcases hin with hin | ⟨rfl, rfl⟩
  · exact .inl (hsub _ hin)
  · rcases hhost with hh | ⟨rfl, rfl⟩
    · exact .inl hh
    · exact .inr ⟨rfl, rfl⟩

theorem of_grows (hP : Placed t made host σ E σE) (hg : t.Grows t' none) (hE : E < t.size) :
    Placed t' made host σ E σE := by
  obtain ⟨e, σp, P, he, hp, hin, hns⟩ := hP
  exact ⟨e, σp, P, (hg.element?_eq hE).trans he, (hg.parent_eq hE (by simp)).trans hp, hin, hns⟩

/-- Handing the children of `frag`, which is not recorded, to `host` keeps every record placed. -/
theorem unbatch {frag : NodeId} (hP : Placed t made frag σ E σE) (hfrag : ∀ σ', (frag, σ') ∉ made)
    (hel : t'.element? E = t.element? E)
    (hpar : t'.parent E = if t.parent E = some frag then some host else t.parent E) :
    Placed t' made host σ E σE := by
  obtain ⟨e, σp, P, he, hp, hin, hns⟩ := hP
  rw [hp] at hpar
  by_cases hP : P = frag
  · subst hP
    obtain ⟨-, rfl⟩ := hin.resolve_left (hfrag σp)
    exact ⟨e, σp, host, hel.trans he, by simpa using hpar, .inr ⟨rfl, rfl⟩, hns⟩
  · have hne : some P ≠ some frag := fun h => hP (Option.some.inj h)
    rw [if_neg hne] at hpar
    exact ⟨e, σp, P, hel.trans he, hpar, .inl (hin.resolve_right fun h => hP h.1), hns⟩

end Placed

namespace Settled

theorem refl (hs : Start t pos host σ) : Settled t pos host σ [] t :=
  ⟨hs.wf, .refl t _, by simp, by simp⟩

/-- A node that is no element is not recorded. -/
theorem not_mem (h : Settled t₀ pos host σ made t) {n : NodeId} (hn : t.element? n = none)
    (σ' : Scope) : (n, σ') ∉ made := by
  intro hmem
  obtain ⟨e, -, -, he, -⟩ := h.placed _ hmem
  simp [hn] at he

/-- Two builds in a row at a position that unlinks nothing. -/
theorem append {m₁ m₂ : Made} (h₁ : Settled t₀ pos host σ m₁ t₁) (h₂ : Settled t₁ pos host σ m₂ t₂)
    (hg : pos.gone = none) : Settled t₀ pos host σ (m₁ ++ m₂) t₂ := by
  have hg₁ : t₀.Grows t₁ none := hg ▸ h₁.grows
  refine ⟨h₂.wf, hg₁.trans h₂.grows, fun m hm => ?_, fun m hm => ?_⟩
  · rcases List.mem_append.1 hm with hm | hm
    · exact ⟨(h₁.fresh m hm).1, lt_of_lt_of_le (h₁.fresh m hm).2 h₂.grows.1⟩
    · exact ⟨le_trans hg₁.1 (h₂.fresh m hm).1, (h₂.fresh m hm).2⟩
  · rcases List.mem_append.1 hm with hm | hm
    · exact ((h₁.placed m hm).of_grows (hg ▸ h₂.grows) (h₁.fresh m hm).2).mono
        (fun _ hm' => List.mem_append_left _ hm') (.inr ⟨rfl, rfl⟩)
    · exact (h₂.placed m hm).mono (fun _ hm' => List.mem_append_right _ hm') (.inr ⟨rfl, rfl⟩)

/-- An element's record, then the records of what was built under it. -/
theorem nest {E doc : NodeId} {σE : Scope} {kids : Made} (h₁ : Settled t₀ pos host σ [(E, σE)] t₁)
    (h₂ : Settled t₁ (Position.inside E doc) E σE kids t₂) :
    Settled t₀ pos host σ ((E, σE) :: kids) t₂ := by
  have hE := h₁.fresh (E, σE) (List.mem_singleton_self _)
  have hg₂ : t₁.Grows t₂ none := h₂.grows
  refine ⟨h₂.wf, h₁.grows.trans_none hg₂, fun m hm => ?_, fun m hm => ?_⟩
  · rcases List.mem_cons.1 hm with rfl | hm
    · exact ⟨hE.1, lt_of_lt_of_le hE.2 hg₂.1⟩
    · exact ⟨le_trans h₁.grows.1 (h₂.fresh m hm).1, (h₂.fresh m hm).2⟩
  · rcases List.mem_cons.1 hm with rfl | hm
    · exact ((h₁.placed _ (List.mem_singleton_self _)).of_grows hg₂ hE.2).mono
        (fun _ hm' => by simp_all) (.inr ⟨rfl, rfl⟩)
    · exact (h₂.placed m hm).mono (fun _ hm' => List.mem_cons_of_mem _ hm')
        (.inl (List.mem_cons_self ..))

end Settled

theorem Start.of_settled (hs : Start t₀ pos host σ) (h : Settled t₀ pos host σ made t)
    (hg : pos.gone = none) : Start t pos host σ :=
  ⟨h.wf, lt_of_lt_of_le hs.host_lt h.grows.1, hs.hostIn.of_grows (hg ▸ h.grows), hs.scope⟩

/-- No ancestor of the host is unlinked: the replaced reference is the host's child. -/
theorem Start.not_gone (hs : Start t pos host σ) (a : NodeId) (ha : ReflTransGen t.ParentOf a host) :
    some a ≠ pos.gone := by
  obtain ⟨mode, ref, doc⟩ := pos
  cases mode <;> simp only [Position.gone, ne_eq, reduceCtorEq, not_false_eq_true,
    Option.some.injEq]
  rintro rfl
  exact hs.wf.not_transGen_self a (TransGen.tail' ha hs.hostIn)

end

end Markup
