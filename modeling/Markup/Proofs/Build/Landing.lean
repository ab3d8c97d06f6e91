import Markup.Proofs.Build.Attachment
import Markup.Proofs.Build.Ends
import Markup.Proofs.Build.Coherent
import Markup.Proofs.Tree.Copy
import Markup.Proofs.Render.Root

/-!
# What a build leaves of the tree it started from

A build at a position (a mode and a reference) makes new nodes and puts at most one group of them
in place, at the attachment point; everything else it does happens inside nodes it made. So the
nodes that were there before keep their content, and all but the host and a replaced reference
keep their links (`Position.Leaves`): either nothing changed at the attachment point, or new
nodes stand there as the mode says (`Mode.Placed`).

This holds whether the build succeeds or fails. A failed build has attached at most one new
element, the element whose children failed to build, since an element is put in place before
its children are built, while a list builds its items into a fragment of its own and attaches
the fragment last.

The relation is built from steps: allocation and attribute edits touch new nodes only
(`Position.Leaves.of_get`), an attachment of a new node puts its incoming nodes in place
(`Position.Leaves.ends_attach`), and what happens under a new node leaves the older nodes alone
(`Position.Leaves.nest`).
-/

namespace Markup

open Relation Markup.Tree BuildM

/-! ## Where the nodes go, read off the trees around -/

section Placed

variable {m : Mode} {t₀ t t' t'' : Tree} {ins : List NodeId} {r : NodeId}

/-- `Mode.Placed` reads, of the tree it starts from, the reference's parent and the host's
children: a tree that agrees on the old nodes gives the same placement. -/
theorem Mode.Placed.of_start (h : m.Placed t t' ins r) (h₀ : t₀.WellFormed) (hr : r < t₀.size)
    (hsame : ∀ x < t₀.size, t.parent x = t₀.parent x ∧ t.children x = t₀.children x) :
    m.Placed t₀ t' ins r := by
  cases m with
  | parent =>
    show t'.children r = t₀.children r ++ ins
    rw [← (hsame r hr).2]
    exact h
  | before =>
    obtain ⟨p, A, B, hp, hL, hL'⟩ := h
    rw [(hsame r hr).1] at hp
    exact ⟨p, A, B, hp, (hsame p (h₀.parent_lt hp)).2 ▸ hL, hL'⟩
  | after =>
    obtain ⟨p, A, B, hp, hL, hL'⟩ := h
    rw [(hsame r hr).1] at hp
    exact ⟨p, A, B, hp, (hsame p (h₀.parent_lt hp)).2 ▸ hL, hL'⟩
  | replace =>
    obtain ⟨p, A, B, hp, hL, hL', hgone⟩ := h
    rw [(hsame r hr).1] at hp
    exact ⟨p, A, B, hp, (hsame p (h₀.parent_lt hp)).2 ▸ hL, hL', hgone⟩

/-- Of the tree it ends in, `Mode.Placed` reads the host's children and the reference's parent. -/
theorem Mode.Placed.of_end (h : m.Placed t t' ins r) (ht : t.WellFormed) (hr : r < t.size)
    (hsame : ∀ x < t.size, t''.parent x = t'.parent x ∧ t''.children x = t'.children x) :
    m.Placed t t'' ins r := by
  cases m with
  | parent =>
    show t''.children r = t.children r ++ ins
    rw [(hsame r hr).2]
    exact h
  | before =>
    obtain ⟨p, A, B, hp, hL, hL'⟩ := h
    exact ⟨p, A, B, hp, hL, (hsame p (ht.parent_lt hp)).2 ▸ hL'⟩
  | after =>
    obtain ⟨p, A, B, hp, hL, hL'⟩ := h
    exact ⟨p, A, B, hp, hL, (hsame p (ht.parent_lt hp)).2 ▸ hL'⟩
  | replace =>
    obtain ⟨p, A, B, hp, hL, hL', hgone⟩ := h
    exact ⟨p, A, B, hp, hL, (hsame p (ht.parent_lt hp)).2 ▸ hL', (hsame r hr).1 ▸ hgone⟩

/-- The host keeps a child once nodes are put in place: the new ones, or the reference. -/
theorem Mode.Placed.host_ne_nil {pos : Position} (h : pos.mode.Placed t t' ins pos.reference)
    (hne : ins ≠ []) {host : NodeId} (hhost : pos.HostIn t host) : t'.children host ≠ [] := by
  obtain ⟨mode, r, doc⟩ := pos
  cases mode with
  | parent =>
    obtain rfl : r = host := hhost
    rw [show t'.children r = t.children r ++ ins from h]
    simpa using fun _ => hne
  | before =>
    obtain ⟨p, A, B, hp, -, hL'⟩ := h
    obtain rfl : host = p := Option.some.inj ((hhost : t.parent r = some host).symm.trans hp)
    simp [hL']
  | after =>
    obtain ⟨p, A, B, hp, -, hL'⟩ := h
    obtain rfl : host = p := Option.some.inj ((hhost : t.parent r = some host).symm.trans hp)
    simp [hL']
  | replace =>
    obtain ⟨p, A, B, hp, -, hL', -⟩ := h
    obtain rfl : host = p := Option.some.inj ((hhost : t.parent r = some host).symm.trans hp)
    rw [hL']
    exact fun hnil => hne (List.append_eq_nil_iff.1 (List.append_eq_nil_iff.1 hnil).1).2

end Placed

/-! ## The relation -/

/-- What a build at `pos` did to the nodes of `t`, the tree it started from, leaving `t'`. The
tree is still well formed and every node of `t` keeps its content. Either nothing changed at the
attachment point (`o = none`), or the nodes `ins`, all new, stand where the mode puts them
(`o = some ins`). Every node of `t` keeps its parent, but for a replaced reference, and its
children, but for the host the nodes joined. -/
structure Position.Leaves (pos : Position) (t t' : Tree) (o : Option (List NodeId)) : Prop where
  wf : t'.WellFormed
  size_le : t.size ≤ t'.size
  content : ∀ {x}, x < t.size → (t'.get x).content = (t.get x).content
  placed : ∀ {ins}, o = some ins →
    (∀ y ∈ ins, t.size ≤ y) ∧ pos.mode.Placed t t' ins pos.reference
  parent : ∀ {x}, x < t.size → (o = none ∨ some x ≠ pos.gone) → t'.parent x = t.parent x
  children : ∀ {x}, x < t.size → (o = none ∨ ¬ pos.HostIn t x) → t'.children x = t.children x

namespace Position.Leaves

variable {pos : Position} {t t₁ t₂ t' : Tree} {o o' : Option (List NodeId)} {x : NodeId}

theorem nodeType (h : pos.Leaves t t' o) (hx : x < t.size) : t'.nodeType x = t.nodeType x := by
  simp only [Tree.nodeType, h.content hx]

/-- Nothing changed at the attachment point: every old node keeps its links. -/
theorem links (h : pos.Leaves t t' none) (hx : x < t.size) :
    t'.parent x = t.parent x ∧ t'.children x = t.children x :=
  ⟨h.parent hx (.inl rfl), h.children hx (.inl rfl)⟩

/-- A step that changes new nodes only. -/
theorem of_get (h : t'.WellFormed) (hsize : t.size ≤ t'.size)
    (hget : ∀ x < t.size, t'.get x = t.get x) : pos.Leaves t t' none where
  wf := h
  size_le := hsize
  content hx := by rw [hget _ hx]
  placed hins := by cases hins
  parent hx _ := by simp only [Tree.parent, hget _ hx]
  children hx _ := by simp only [Tree.children, hget _ hx]

theorem refl (h : t.WellFormed) : pos.Leaves t t none :=
  of_get h le_rfl fun _ _ => rfl

/-- Where the build attaches is the same in a tree that keeps the old links. -/
theorem hostIn_iff (h : pos.Leaves t t₁ none) (hr : pos.reference < t.size) (host : NodeId) :
    pos.HostIn t₁ host ↔ pos.HostIn t host := by
  obtain ⟨mode, ref, doc⟩ := pos
  cases mode with
  | parent => exact Iff.rfl
  | _ => exact iff_of_eq (congrArg (· = some host) (h.links hr).1)

/-- What an attachment that puts nothing in place reads back is the same in a tree that keeps
the old links. -/
theorem stood (h : pos.Leaves t t₁ none) (ht : t.WellFormed) {r : NodeId} (hr : r < t.size)
    (m : Mode) : m.stood t₁ r = m.stood t r := by
  obtain ⟨hp, hc⟩ := h.links hr
  cases m with
  | parent => simp only [Mode.stood, lastChild, hc]
  | replace => simp only [Mode.stood, hp]
  | before | after =>
    simp only [Mode.stood, prevSibling, nextSibling, hp]
    cases hpar : t.parent r with
    | none => rfl
    | some p => simp only [(h.links (ht.parent_lt hpar)).2]

/-- Appending nothing changes nothing at the attachment point. -/
theorem none_of_parent_nil (h : pos.Leaves t t' (some [])) (hm : pos.mode = .parent) :
    pos.Leaves t t' none where
  wf := h.wf
  size_le := h.size_le
  content := h.content
  placed hins := by cases hins
  parent hx _ := h.parent hx (.inr (by simp [Position.gone, hm]))
  children {x} hx _ := by
    by_cases hxr : x = pos.reference
    · have hplaced := (h.placed rfl).2
      rw [hm] at hplaced
      simpa [Mode.Placed, hxr] using hplaced
    · refine h.children hx (.inr fun hin => hxr ?_)
      simp only [Position.HostIn, hm] at hin
      exact hin.symm

/-- A build, then steps that keep the content and the links of the nodes of `t`. -/
theorem keep (h₁ : pos.Leaves t t₁ o) (hwf : t₂.WellFormed) (hsize : t₁.size ≤ t₂.size)
    (hcontent : ∀ y < t.size, (t₂.get y).content = (t₁.get y).content)
    (hsame : ∀ y < t.size, t₂.parent y = t₁.parent y ∧ t₂.children y = t₁.children y)
    (ht : t.WellFormed) (hr : pos.reference < t.size) : pos.Leaves t t₂ o where
  wf := hwf
  size_le := h₁.size_le.trans hsize
  content hx := (hcontent _ hx).trans (h₁.content hx)
  placed hins := by
    obtain ⟨hfresh, hplaced⟩ := h₁.placed hins
    exact ⟨hfresh, hplaced.of_end ht hr hsame⟩
  parent hx hg := (hsame _ hx).1.trans (h₁.parent hx hg)
  children hx hh := (hsame _ hx).2.trans (h₁.children hx hh)

/-- A build, then a build that changed nothing old. -/
theorem trans_none (h₁ : pos.Leaves t t₁ o) (h₂ : pos.Leaves t₁ t₂ none) (ht : t.WellFormed)
    (hr : pos.reference < t.size) : pos.Leaves t t₂ o :=
  h₁.keep h₂.wf h₂.size_le (fun _ hy => h₂.content (lt_of_lt_of_le hy h₁.size_le))
    (fun _ hy => h₂.links (lt_of_lt_of_le hy h₁.size_le)) ht hr

/-- A build at a position, then a build under a node it made: the second leaves the nodes older
than that node as they were. -/
theorem nest {el doc : NodeId} (h₁ : pos.Leaves t t₁ o)
    (h₂ : (Position.inside el doc).Leaves t₁ t₂ o') (ht : t.WellFormed)
    (hr : pos.reference < t.size) (hel : t.size ≤ el) : pos.Leaves t t₂ o := by
  refine h₁.keep h₂.wf h₂.size_le (fun _ hy => h₂.content (lt_of_lt_of_le hy h₁.size_le))
    (fun y hy => ?_) ht hr
  -- the nodes of `t` are not `el`, so the second build keeps their links
  have hy₁ := lt_of_lt_of_le hy h₁.size_le
  exact ⟨h₂.parent hy₁ (.inr (by simp)),
    h₂.children hy₁ (.inr fun hin => Nat.lt_irrefl _ (lt_of_lt_of_le hy (hel.trans_eq hin)))⟩

/-- Steps that changed nothing old, then a build. -/
theorem none_trans (h₁ : pos.Leaves t t₁ none) (h₂ : pos.Leaves t₁ t₂ o) (ht : t.WellFormed)
    (hr : pos.reference < t.size) : pos.Leaves t t₂ o where
  wf := h₂.wf
  size_le := h₁.size_le.trans h₂.size_le
  content hx := (h₂.content (lt_of_lt_of_le hx h₁.size_le)).trans (h₁.content hx)
  placed hins := by
    obtain ⟨hfresh, hplaced⟩ := h₂.placed hins
    exact ⟨fun y hy => h₁.size_le.trans (hfresh y hy),
      hplaced.of_start ht hr fun y hy => h₁.links hy⟩
  parent hx hg := (h₂.parent (lt_of_lt_of_le hx h₁.size_le) hg).trans (h₁.links hx).1
  children hx hh := by
    refine (h₂.children (lt_of_lt_of_le hx h₁.size_le) ?_).trans (h₁.links hx).2
    rwa [h₁.hostIn_iff hr]

/-- Two builds in a row that append to the same node, each putting nodes in place: the nodes of
both join it, in order. -/
theorem append_some {ins₁ ins₂ : List NodeId} (hm : pos.mode = .parent)
    (h₁ : pos.Leaves t t₁ (some ins₁)) (h₂ : pos.Leaves t₁ t₂ (some ins₂)) :
    pos.Leaves t t₂ (some (ins₁ ++ ins₂)) := by
  obtain ⟨mode, r, doc⟩ := pos
  subst hm
  obtain ⟨hfresh₁, hplaced₁⟩ := h₁.placed rfl
  obtain ⟨hfresh₂, hplaced₂⟩ := h₂.placed rfl
  have hkids : t₂.children r = t.children r ++ (ins₁ ++ ins₂) := by
    rw [show t₂.children r = t₁.children r ++ ins₂ from hplaced₂,
      show t₁.children r = t.children r ++ ins₁ from hplaced₁, List.append_assoc]
  refine ⟨h₂.wf, h₁.size_le.trans h₂.size_le, fun hx => ?_, fun hins => ?_, fun hx _ => ?_,
    fun hx hh => ?_⟩
  · exact (h₂.content (lt_of_lt_of_le hx h₁.size_le)).trans (h₁.content hx)
  · cases hins
    refine ⟨fun y hy => ?_, hkids⟩
    rcases List.mem_append.1 hy with hy | hy
    · exact hfresh₁ y hy
    · exact h₁.size_le.trans (hfresh₂ y hy)
  · exact (h₂.parent (lt_of_lt_of_le hx h₁.size_le) (.inr (by simp [Position.gone]))).trans
      (h₁.parent hx (.inr (by simp [Position.gone])))
  · -- appending to `r`, the host is `r` in every tree
    have hne := hh.resolve_left (by simp)
    exact (h₂.children (lt_of_lt_of_le hx h₁.size_le) (.inr hne)).trans
      (h₁.children hx (.inr hne))

/-- Two builds in a row that append to the same node: the nodes of both join it. -/
theorem append (hm : pos.mode = .parent) (h₁ : pos.Leaves t t₁ o) (h₂ : pos.Leaves t₁ t₂ o')
    (ht : t.WellFormed) (hr : pos.reference < t.size) : ∃ o'', pos.Leaves t t₂ o'' := by
  cases o with
  | none => exact ⟨o', h₁.none_trans h₂ ht hr⟩
  | some ins₁ =>
    cases o' with
    | none => exact ⟨some ins₁, h₁.trans_none h₂ ht hr⟩
    | some ins₂ => exact ⟨_, h₁.append_some hm h₂⟩

/-- An old node with children keeps some: only the host gains or loses children, and it loses
none when the build appends or puts new nodes in place. -/
theorem children_ne_nil (h : pos.Leaves t t' o)
    (ho : ∀ ins, o = some ins → pos.mode = .parent ∨ ins ≠ []) (hx : x < t.size)
    (hne : t.children x ≠ []) : t'.children x ≠ [] := by
  cases o with
  | none =>
    rw [(h.links hx).2]
    exact hne
  | some ins =>
    by_cases hin : pos.HostIn t x
    · rcases ho ins rfl with hm | hins
      · -- appending to the reference, which is the host
        obtain ⟨mode, r, doc⟩ := pos
        obtain rfl : mode = .parent := hm
        obtain rfl : r = x := hin
        have hkids : t'.children r = t.children r ++ ins := (h.placed rfl).2
        rw [hkids]
        exact fun hnil => hne (List.append_eq_nil_iff.1 hnil).1
      · exact (h.placed rfl).2.host_ne_nil hins hin
    · rw [h.children hx (.inr hin)]
      exact hne

end Position.Leaves

/-! ## Attaching a new node -/

theorem Mode.ends_parentOf (m : Mode) (r : NodeId) (t : Tree) :
    Ends (m.parentOf r) t (fun p t' => t' = t ∧ t.parent r = some p) (· = t) where
  ok h := (Mode.parentOf_eq_ok h).symm
  error h := by
    unfold Mode.parentOf at h
    rcases bind_eq_error h with h | ⟨o, t₁, hread, hk⟩
    · cases h
    · cases hread
      cases hq : t.parent r with
      | none =>
        simp only [hq] at hk
        cases hk
        rfl
      | some p =>
        simp only [hq] at hk
        cases hk

/-- A refused attachment leaves the tree as it was. -/
theorem Mode.ends_attach (m : Mode) (n r : NodeId) (t : Tree) :
    Ends (m.attach n r) t (fun _ _ => True) (· = t) := by
  -- reads keep the tree, and only the edit and the parent lookup can fail
  have hread : ∀ {α : Type} (f : Tree → α) t₁, t₁ = t →
      Ends (read f) t₁ (fun _ t₂ => t₂ = t) (· = t) := fun f t₁ ht₁ =>
    ends_read f ht₁
  have hedit : ∀ (f : Tree → Except TreeError Tree) t₁, t₁ = t →
      Ends (edit f) t₁ (fun _ _ => True) (· = t) := fun f t₁ ht₁ =>
    ends_edit f (fun _ _ => trivial) ht₁
  have hret : ∀ (f : Tree → Option NodeId) t₁, Ends (read f >>= fun a => pure (a.getD r)) t₁
      (fun _ _ => True) (· = t) := fun f t₁ =>
    (ends_read f trivial : Ends (read f) t₁ (fun _ _ => True) (· = t)).bind fun _ _ _ =>
      ends_pure _ trivial
  have hparent : ∀ t₁, t₁ = t →
      Ends (m.parentOf r) t₁ (fun _ t₂ => t₂ = t) (· = t) := fun t₁ ht₁ =>
    (Mode.ends_parentOf m r t₁).mono (fun _ _ h => h.1.trans ht₁) fun _ h => h.trans ht₁
  cases m with
  | parent => exact (hedit _ t rfl).bind fun _ t₁ _ => hret _ t₁
  | before =>
    exact (hparent t rfl).bind fun _ t₁ ht₁ => (hedit _ t₁ ht₁).bind fun _ t₂ _ => hret _ t₂
  | after =>
    exact (hparent t rfl).bind fun _ t₁ ht₁ => (hread _ t₁ ht₁).bind fun _ t₂ ht₂ =>
      (hedit _ t₂ ht₂).bind fun _ t₃ _ => hret _ t₃
  | replace =>
    exact (hread _ t rfl).bind fun _ t₁ ht₁ => (hparent t₁ ht₁).bind fun _ t₂ ht₂ =>
      (hedit _ t₂ ht₂).bind fun _ t₃ _ => ends_pure _ trivial

theorem Position.HostIn.lt_size {pos : Position} {t : Tree} {host : NodeId}
    (hin : pos.HostIn t host) (h : t.WellFormed) (hr : pos.reference < t.size) :
    host < t.size := by
  obtain ⟨mode, ref, doc⟩ := pos
  cases mode with
  | parent =>
    obtain rfl : ref = host := hin
    exact hr
  | _ => exact h.parent_lt hin

/-- A successful attachment had somewhere to attach. -/
theorem Mode.exists_hostIn {pos : Position} {t t' : Tree} {n v : NodeId}
    (hrun : pos.mode.attach n pos.reference t = .ok v t') : ∃ host, pos.HostIn t host := by
  obtain ⟨mode, ref, doc⟩ := pos
  cases mode with
  | parent => exact ⟨ref, rfl⟩
  | _ =>
    cases hp : t.parent ref with
    | some p => exact ⟨p, hp⟩
    | none =>
      rw [Mode.attach_of_parent_eq_none (by simp) hp] at hrun
      cases hrun

/-- The nodes a node made after `t` hands over are all new. -/
theorem Position.Leaves.incoming_fresh {pos : Position} {t t₁ : Tree} {n : NodeId}
    (h₁ : pos.Leaves t t₁ none) (ht : t.WellFormed) (hn : t.size ≤ n) :
    ∀ y ∈ t₁.incoming n, t.size ≤ y := by
  intro y hy
  unfold incoming at hy
  split at hy
  · -- a child of `n` is not old: its parent would be old too
    refine Nat.le_of_not_lt fun hyt => ?_
    have hpar : t.parent y = some n := (h₁.links hyt).1.symm.trans (h₁.wf.mem_children.1 hy)
    exact Nat.lt_irrefl _ (lt_of_lt_of_le (ht.parent_lt hpar) hn)
  · rw [List.mem_singleton.1 hy]
    exact hn

/-- Attaching a new node with no parent on a tree where no old node has changed yet. On success
its incoming nodes stand where the mode puts them, and the run is the DOM's; a refused
attachment changes nothing. -/
theorem Position.Leaves.ends_attach {pos : Position} {t t₁ : Tree} {n : NodeId}
    (h₁ : pos.Leaves t t₁ none) (ht : t.WellFormed) (hr : pos.reference < t.size)
    (hn : t.size ≤ n) (hnp : t₁.parent n = none) :
    Ends (pos.mode.attach n pos.reference) t₁
      (fun v t' => pos.Leaves t t' (some (t₁.incoming n)) ∧
        pos.mode.Attaches t₁ t' n pos.reference v ∧
        (∀ x, (t'.get x).content = (t₁.get x).content) ∧
        (t₁.nodeType n ≠ .fragment → t'.children n = t₁.children n))
      (fun t' => pos.Leaves t t' none) := by
  refine ⟨fun hrun => ?_, fun hrun => (Mode.ends_attach _ _ _ _).error hrun ▸ h₁⟩
  have hr₁ : pos.reference < t₁.size := lt_of_lt_of_le hr h₁.size_le
  obtain ⟨host, hin⟩ := Mode.exists_hostIn hrun
  obtain ⟨hwf', L, hs⟩ := attach_spliced h₁.wf (hin.lt_size h₁.wf hr₁) hin hrun
  have hatt := Mode.attaches h₁.wf hnp hr₁ hrun
  have hfresh := h₁.incoming_fresh ht hn
  have hold : ∀ {x}, x < t.size → x ∉ t₁.incoming n := fun hx hmem =>
    Nat.lt_irrefl _ (lt_of_lt_of_le hx (hfresh _ hmem))
  have hnh : n ≠ host := by
    rintro rfl
    exact Nat.lt_irrefl _ (lt_of_lt_of_le (((h₁.hostIn_iff hr n).1 hin).lt_size ht hr) hn)
  refine ⟨⟨hwf', h₁.size_le.trans hs.size_eq.ge, fun hx => ?_, fun hins => ?_, fun hx hg => ?_,
    fun {x} hx hh => ?_⟩, hatt, hs.content_eq, fun hfr => ?_⟩
  · exact (hs.content_eq _).trans (h₁.content hx)
  · cases hins
    exact ⟨hfresh, hatt.placed.of_start ht hr fun y hy => h₁.links hy⟩
  · rw [hs.parent_other (hold hx), if_neg (hg.resolve_left (by simp))]
    exact (h₁.links hx).1
  · -- an old node other than the host keeps its children, none of which moves
    have hxh : x ≠ host := by
      rintro rfl
      exact hh.resolve_left (by simp) ((h₁.hostIn_iff hr x).1 hin)
    have hxn : x ≠ n := fun hxn => Nat.lt_irrefl _ (lt_of_lt_of_le hx (hxn ▸ hn))
    rw [hs.children_other hxh, filter_not_mem_eq_self fun c hc =>
      not_mem_incoming h₁.wf hnp hxn (h₁.wf.mem_children.1 hc)]
    exact (h₁.links hx).2
  · -- a node that is no fragment moves itself, and keeps its children
    rw [hs.children_other hnh, filter_not_mem_eq_self fun c hc hcn => ?_]
    rw [incoming, if_neg hfr, List.mem_singleton] at hcn
    subst hcn
    rw [h₁.wf.mem_children, hnp] at hc
    cases hc

/-! ## Nodes a build makes and attaches -/

section Steps

variable {pos : Position} {t : Tree}

theorem Mode.landed_singleton (m : Mode) (n : NodeId) : m.landed [n] = some n := by
  cases m <;> rfl

theorem Tree.incoming_of_nodeType_ne {n : NodeId} (h : t.nodeType n ≠ .fragment) :
    t.incoming n = [n] :=
  if_neg h

/-- The content of a node that holds no children: text, a comment, CDATA or an instruction. -/
def Content.IsLeaf : Content → Prop
  | .text _ | .comment _ | .cdata _ | .instruction _ _ => True
  | _ => False

theorem Content.IsLeaf.type_ne {c : Content} (hc : c.IsLeaf) :
    c.type ≠ .fragment ∧ ∀ e, c ≠ .element e := by
  cases c <;> first
    | exact (hc : False).elim
    | exact ⟨(fun h => by cases h), (fun e h => by cases h)⟩

/-- A new leaf attached at the position: the node is put in place and returned. -/
theorem Position.ends_attach_leaf (ht : t.WellFormed) (hr : pos.reference < t.size)
    {c : Content} (hc : c.IsLeaf) (o : Option NodeId) :
    Ends (pos.mode.attach t.size pos.reference) (t.alloc c o).1
      (fun v t' => pos.Leaves t t' (some [t.size]) ∧ v = t.size)
      (fun t' => pos.Leaves t t' none) := by
  have hwf : (t.alloc c o).1.WellFormed := ht.alloc c o fun e he => absurd he (hc.type_ne.2 e)
  have h₁ : pos.Leaves t (t.alloc c o).1 none :=
    Position.Leaves.of_get hwf (by simp) fun _ hx => get_alloc_of_lt c o hx
  have hinc : (t.alloc c o).1.incoming t.size = [t.size] :=
    incoming_of_nodeType_ne (by rw [nodeType_alloc, if_pos rfl]; exact hc.type_ne.1)
  refine (h₁.ends_attach ht hr le_rfl (by rw [parent_alloc, if_pos rfl])).mono
    (fun v t' h => ?_) fun _ h => h
  obtain ⟨hl, hatt, -⟩ := h
  have hv := hatt.landed (by rw [hinc]; simp)
  rw [hinc, Mode.landed_singleton] at hv
  rw [hinc] at hl
  exact ⟨hl, Option.some.inj hv⟩

/-- Making a new leaf, which may be refused, then attaching it. -/
theorem Position.ends_make_leaf (ht : t.WellFormed) (hr : pos.reference < t.size)
    (f : Tree → Except TreeError (Tree × NodeId))
    (hf : ∀ r, f t = .ok r → ∃ c o, c.IsLeaf ∧ r = t.alloc c o) :
    Ends (make f >>= fun n => pos.mode.attach n pos.reference) t
      (fun v t' => pos.Leaves t t' (some [t.size]) ∧ v = t.size)
      (fun t' => pos.Leaves t t' none) := by
  have hmake : Ends (make f) t (fun n t₁ => ∃ c o, c.IsLeaf ∧ (t₁, n) = t.alloc c o)
      (fun t' => pos.Leaves t t' none) :=
    ends_make f (fun r hr' => hf r hr') (Position.Leaves.refl ht)
  refine hmake.bind fun n t₁ h => ?_
  obtain ⟨c, o, hc, he⟩ := h
  obtain ⟨rfl, rfl⟩ := Prod.mk.inj he
  exact pos.ends_attach_leaf ht hr hc o

/-- Making a new leaf, then attaching it. -/
theorem Position.ends_alloc_leaf (ht : t.WellFormed) (hr : pos.reference < t.size)
    (f : Tree → Tree × NodeId) (hf : ∃ c o, c.IsLeaf ∧ f t = t.alloc c o) :
    Ends (alloc f >>= fun n => pos.mode.attach n pos.reference) t
      (fun v t' => pos.Leaves t t' (some [t.size]) ∧ v = t.size)
      (fun t' => pos.Leaves t t' none) := by
  refine (ends_alloc_eq f).bind fun n t₁ h => ?_
  obtain ⟨c, o, hc, he⟩ := hf
  rw [he] at h
  obtain ⟨rfl, rfl⟩ := h
  exact pos.ends_attach_leaf ht hr hc o

theorem Position.ends_buildText (ht : t.WellFormed) (hr : pos.reference < t.size)
    (text : String) :
    Ends (buildText pos text) t (fun v t' => pos.Leaves t t' (some [t.size]) ∧ v = t.size)
      (fun t' => pos.Leaves t t' none) :=
  pos.ends_alloc_leaf ht hr _ ⟨.text text, some pos.doc, trivial, rfl⟩

/-- A comment, CDATA section or instruction is a new leaf put in place; the spec may also be
refused before anything is made. -/
theorem Position.ends_buildReserved (ht : t.WellFormed) (hr : pos.reference < t.size)
    (kind : Reserved) (children : List Spec) (attrs : List (String × Spec)) (args : List Spec) :
    Ends (buildReserved pos kind children attrs args) t
      (fun v t' => pos.Leaves t t' (some [t.size]) ∧ v = t.size)
      (fun t' => pos.Leaves t t' none) := by
  unfold buildReserved
  cases kind with
  | comment => exact pos.ends_alloc_leaf ht hr _ ⟨.comment _, some pos.doc, trivial, rfl⟩
  | cdata =>
    refine pos.ends_make_leaf ht hr _ fun r hr' => ?_
    simp only [Tree.createCData] at hr'
    split at hr'
    · cases hr'
    · exact ⟨.cdata _, some pos.doc, trivial, (Except.ok.inj hr').symm⟩
  | instruction =>
    dsimp only
    split
    · exact ends_throw_bind (Position.Leaves.refl ht)
    · split
      · exact ends_throw_bind (Position.Leaves.refl ht)
      · refine pos.ends_make_leaf ht hr _ fun r hr' => ?_
        simp only [Tree.createInstruction] at hr'
        split at hr'
        · cases hr'
        · split at hr'
          · cases hr'
          · exact ⟨.instruction _ _, some pos.doc, trivial, (Except.ok.inj hr').symm⟩
  | doctype => exact ends_throw_bind (Position.Leaves.refl ht)

/-- A deep copy of a node, attached at the position. What lands is the copy, or the copies of a
fragment's children: nothing lands only when the node copied is an empty fragment, and the run
then returns what stood at the attachment point. -/
theorem Position.ends_clone (ht : t.WellFormed) (hr : pos.reference < t.size) (n : NodeId) :
    Ends (alloc (·.cloneNode n true) >>= fun copy => pos.mode.attach copy pos.reference) t
      (fun v t' => ∃ ins, pos.Leaves t t' (some ins) ∧ (ins ≠ [] → some v = pos.mode.landed ins) ∧
        (ins = [] → v = pos.mode.stood t pos.reference) ∧
        ((t.nodeType n = .fragment → t.children n ≠ []) → ins ≠ []))
      (fun t' => pos.Leaves t t' none) := by
  have hd := ht.deepCopy_cloneNode n
  obtain ⟨σ, hσn, hσ⟩ := hd.copies
  have hsize : t.size < (t.cloneNode n true).1.size := by
    have h := ((hd.below_copy _).1 .refl).2
    rwa [hd.copy_eq] at h
  have h₁ : pos.Leaves t (t.cloneNode n true).1 none :=
    Position.Leaves.of_get (ht.cloneNode n true) hsize.le fun _ hx => hd.get_old hx
  -- the copy has the kind of `n`, and the copies of its children
  have htype : (t.cloneNode n true).1.nodeType t.size = t.nodeType n := by
    rw [← hd.copy_eq, ← hσn]
    simp only [Tree.nodeType, hσ.content .refl]
  have hkids : (t.cloneNode n true).1.children t.size = (t.children n).map σ := by
    rw [← hd.copy_eq, ← hσn]
    exact hσ.children .refl
  refine (ends_alloc_eq _).bind fun c t₁ h => ?_
  obtain ⟨rfl, rfl⟩ := h
  rw [hd.copy_eq]
  refine (h₁.ends_attach ht hr le_rfl (hd.copy_eq ▸ hd.parent_copy)).mono
    (fun v t' h => ?_) fun _ h => h
  obtain ⟨hl, hatt, -⟩ := h
  refine ⟨_, hl, hatt.landed, fun hnil => ?_, fun hfill => ?_⟩
  · rw [hatt.stood hnil, h₁.stood ht hr]
  unfold incoming
  split
  · rename_i hfr
    rw [hkids, Ne, List.map_eq_nil_iff]
    exact hfill (htype ▸ hfr)
  · exact List.cons_ne_nil _ _

end Steps

/-! ## A new element -/

/-- `t₁` is `t` with new nodes, among them the element `el`, which has no links yet. -/
structure FreshElement (t t₁ : Tree) (el : NodeId) : Prop where
  wf : t₁.WellFormed
  size_le : t.size ≤ t₁.size
  get_old : ∀ {x}, x < t.size → t₁.get x = t.get x
  fresh : t.size ≤ el
  element : t₁.nodeType el = .element
  parent : t₁.parent el = none
  children : t₁.children el = []

namespace FreshElement

variable {t t₁ : Tree} {el : NodeId}

theorem leaves (h : FreshElement t t₁ el) (pos : Position) : pos.Leaves t t₁ none :=
  Position.Leaves.of_get h.wf h.size_le fun _ hx => h.get_old hx

theorem alloc (ht : t.WellFormed) (e : Element) (he : e.attrs = []) (o : Option NodeId) :
    FreshElement t (t.alloc (.element e) o).1 t.size where
  wf := ht.alloc _ o fun e' h => by
    cases h
    simp [he]
  size_le := by simp
  get_old hx := get_alloc_of_lt _ o hx
  fresh := le_rfl
  element := by rw [nodeType_alloc, if_pos rfl]; rfl
  parent := by rw [parent_alloc, if_pos rfl]
  children := by rw [children_alloc, if_pos rfl]

/-- An edit of the new element's record. -/
theorem modifyElement (h : FreshElement t t₁ el) {f : Element → Element}
    (hwf : (t₁.modifyElement el f).WellFormed) : FreshElement t (t₁.modifyElement el f) el where
  wf := hwf
  size_le := h.size_le.trans_eq (size_modifyElement _ _ _).symm
  get_old {x} hx := by
    have hne : ¬ (el = x ∧ x < t₁.size) := fun h' =>
      Nat.lt_irrefl _ (lt_of_lt_of_le hx (h.fresh.trans_eq h'.1))
    rw [Tree.modifyElement, get_modify, if_neg hne]
    exact h.get_old hx
  fresh := h.fresh
  element := by rw [nodeType_modifyElement]; exact h.element
  parent := by rw [parent_modifyElement]; exact h.parent
  children := by rw [children_modifyElement]; exact h.children

/-- Setting an attribute, or failing to, changes the new element's record only. -/
theorem ends_setAttrEntry (h : FreshElement t t₁ el) (scope : Scope) (args : List Spec)
    (policy : Policy) (entry : String × Spec) :
    Ends (setAttrEntry el scope args policy entry) t₁ (fun _ t₂ => FreshElement t t₂ el)
      (FreshElement t · el) := by
  have hset : ∀ name value, Ends (edit (·.setAttribute el name value)) t₁
      (fun _ t₂ => FreshElement t t₂ el) (FreshElement t · el) := fun _ _ =>
    ends_edit _ (fun _ he => by
      obtain ⟨f, rfl⟩ := exists_modifyElement_of_setAttribute he
      exact h.modifyElement (h.wf.setAttribute he)) h
  have hsetNs : ∀ ns name value, Ends (edit (·.setAttributeNs el ns name value)) t₁
      (fun _ t₂ => FreshElement t t₂ el) (FreshElement t · el) := fun _ _ _ =>
    ends_edit _ (fun _ he => by
      obtain ⟨f, rfl⟩ := exists_modifyElement_of_setAttributeNs he
      exact h.modifyElement (h.wf.setAttributeNs he)) h
  obtain ⟨key, value⟩ := entry
  unfold setAttrEntry
  dsimp only
  cases QName.parse? key with
  | none => exact ends_pure _ h
  | some q =>
    cases Spec.flatten value args with
    | none => exact ends_pure _ h
    | some text =>
      dsimp only
      split
      · exact hsetNs xmlnsNamespace key text
      · cases q.prefixName with
        | none => exact hset key text
        | some ap =>
          dsimp only
          cases scope.namespaceOf? ap with
          | some uri => exact hsetNs uri key text
          | none =>
            dsimp only
            split
            · exact ends_throw_bind h
            · exact hset key text

end FreshElement

section Element

variable {pos : Position} {t : Tree}

/-- Making an element with its attributes: a new element with no links, or, on failure, nothing
old changed. -/
theorem ends_materialize (ht : t.WellFormed) (pos : Position) (doc : NodeId) (tag : TagName)
    (scope : Scope) (attrs : List (String × Spec)) (args : List Spec) (policy : Policy) :
    Ends (materialize doc tag scope attrs args policy) t (fun r t₁ => FreshElement t t₁ r.1)
      (fun t' => pos.Leaves t t' none) := by
  -- the attribute loop keeps the element fresh, whether it ends or fails
  have hrest : ∀ (σ : Scope) el t₁, FreshElement t t₁ el →
      Ends ((Name.sortEntries attrs).forM (setAttrEntry el σ args policy) >>= fun _ =>
        pure (el, σ)) t₁ (fun r t₂ => FreshElement t t₂ r.1) (fun t' => pos.Leaves t t' none) := by
    intro σ el t₁ h₁
    refine ((ends_forM (fun c t₂ h₂ => h₂.ends_setAttrEntry σ args policy c) _ t₁ h₁).mono
      (fun _ _ h => h) fun _ h => h.leaves pos).bind fun _ t₂ h₂ => ends_pure _ h₂
  have hmake : ∀ f : Tree → Except TreeError (Tree × NodeId),
      (∀ r, f t = .ok r → ∃ e o, e.attrs = [] ∧ r = t.alloc (.element e) o) →
      Ends (make f) t (fun el t₁ => FreshElement t t₁ el) (fun t' => pos.Leaves t t' none) := by
    intro f hf
    refine ends_make f (fun r hr => ?_) (Position.Leaves.refl ht)
    obtain ⟨e, o, he, rfl⟩ := hf r hr
    exact FreshElement.alloc ht e he o
  unfold materialize
  refine (ends_check _ (fun _ _ => rfl) (Position.Leaves.refl ht) :
    Ends _ t (fun _ t₁ => t₁ = t) _).bind fun r t₁ ht₁ => ?_
  rw [ht₁]
  obtain ⟨qualified, pfx⟩ := r
  dsimp only
  split
  · refine (hmake _ fun r he => ?_).bind fun el t₂ h₂ => hrest _ el t₂ h₂
    simp only [createElementNs] at he
    split at he <;> cases he
    exact ⟨_, _, rfl, rfl⟩
  · split
    · exact ends_throw_bind (Position.Leaves.refl ht)
    · refine (hmake _ fun r he => ?_).bind fun el t₂ h₂ => hrest _ el t₂ h₂
      simp only [createElement] at he
      split at he <;> cases he
      exact ⟨_, _, rfl, rfl⟩

/-- Placing an element: the new element, alone and still empty, stands at the position and is
what the build returns. -/
theorem Position.ends_placeElement (ht : t.WellFormed) (hr : pos.reference < t.size)
    (scope : Scope) (tag : TagName) (attrs : List (String × Spec)) (args : List Spec)
    (policy : Policy) :
    Ends (placeElement pos scope tag attrs args policy) t
      (fun r t' => pos.Leaves t t' (some [r.1]) ∧ r.2.1 = r.1 ∧ t.size ≤ r.1 ∧
        t'.nodeType r.1 = .element ∧ t'.children r.1 = [])
      (fun t' => pos.Leaves t t' none) := by
  unfold placeElement
  refine (ends_materialize ht pos _ _ _ _ _ _).bind fun r t₁ h₁ => ?_
  obtain ⟨el, inner⟩ := r
  have hinc : t₁.incoming el = [el] :=
    incoming_of_nodeType_ne (by rw [h₁.element]; exact fun h => by cases h)
  refine ((h₁.leaves pos).ends_attach ht hr h₁.fresh h₁.parent).bind fun v t₂ h₂ => ?_
  obtain ⟨hl, hatt, hcontent, hkids⟩ := h₂
  have hv := hatt.landed (by rw [hinc]; exact List.cons_ne_nil _ _)
  rw [hinc, Mode.landed_singleton] at hv
  rw [hinc] at hl
  refine ends_pure _ ⟨hl, Option.some.inj hv, h₁.fresh, ?_, ?_⟩
  · simp only [Tree.nodeType, hcontent el]
    exact h₁.element
  · rw [hkids (by rw [h₁.element]; exact fun h => by cases h)]
    exact h₁.children

end Element

end Markup
