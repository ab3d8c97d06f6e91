import Markup.Proofs.Build.Denotation

/-!
# A build puts in place what its spec denotes

A build into an element or a fragment `H` puts at the attachment point new nodes whose shapes
are what the spec denotes (`denoteSpec`), and changes nothing else that was there before: every
old node keeps its content, and its links but for the host and a replaced reference
(`Position.Puts`). It fails exactly when the denotation does, with the same error. This holds when
every node handle the build can reach names a node of the tree that is not `H` or above it (a
copy of such a node would hold what the build puts there), and, when the build replaces the
reference, no empty fragment (its copy would take the reference out and put nothing in).

The run refines the denotation step by step (`BuildM.Refines`): a text node, a comment, CDATA
section or instruction is a new leaf put in place; a copy is put in place with the shapes of what
it copies; an element is put in place with its record, and its children are built inside it,
where they join it in order; a batch is built into a fragment whose children move in one step.
Shapes already put in place stay as they are while the build goes on (`Position.Leaves.shape_eq`),
since it changes only the host's children and nodes it made.
-/

namespace Markup

open Relation Markup.Tree BuildM

/-! ## Where a build inserts -/

/-- `H` is where a build at `pos` inserts: an element or a fragment that the position attaches
under. -/
structure Position.Into (pos : Position) (t : Tree) (H : NodeId) : Prop where
  hostIn : pos.HostIn t H
  kind : t.nodeType H = .element ∨ t.nodeType H = .fragment

section Into

variable {pos : Position} {t t' : Tree} {H H' : NodeId}

/-- A position attaches under one node. -/
theorem Position.HostIn.unique (h : pos.HostIn t H) (h' : pos.HostIn t H') : H = H' := by
  obtain ⟨mode, ref, doc⟩ := pos
  cases mode with
  | parent => exact (h : ref = H).symm.trans h'
  | _ => exact Option.some.inj ((h : t.parent ref = some H).symm.trans h')

/-- The reference a build replaces is below the host, so no ancestor of the host is it. -/
theorem Position.HostIn.ne_gone (h : pos.HostIn t H) (ht : t.WellFormed) {a : NodeId}
    (ha : ReflTransGen t.ParentOf a H) : some a ≠ pos.gone := by
  obtain ⟨mode, ref, doc⟩ := pos
  cases mode <;> simp only [Position.gone, ne_eq, reduceCtorEq, not_false_eq_true,
    Option.some.injEq]
  rintro rfl
  exact ht.not_transGen_self a (TransGen.tail' ha h)

namespace Position.Into

theorem container (h : pos.Into t H) : (t.nodeType H).isContainer ∧ t.nodeType H ≠ .document := by
  rcases h.kind with hk | hk <;> rw [hk] <;> decide

theorem lt_size (h : pos.Into t H) : H < t.size :=
  lt_size_of_nodeType_ne h.container.2

theorem reference_lt (h : pos.Into t H) : pos.reference < t.size := by
  have hH := h.lt_size
  obtain ⟨mode, ref, doc⟩ := pos
  cases mode with
  | parent =>
    obtain rfl : ref = H := h.hostIn
    exact hH
  | _ => exact lt_size_of_parent_eq_some h.hostIn

/-- Steps that change no old node's links keep where a build inserts. -/
theorem of_leaves (h : pos.Into t H) (hl : pos.Leaves t t' none) : pos.Into t' H :=
  ⟨(hl.hostIn_iff h.reference_lt H).2 h.hostIn, by rw [hl.nodeType h.lt_size]; exact h.kind⟩

/-- Appending keeps where a build inserts. -/
theorem of_append {o : Option (List NodeId)} (hm : pos.mode = .parent) (h : pos.Into t H)
    (hl : pos.Leaves t t' o) : pos.Into t' H := by
  obtain ⟨mode, ref, doc⟩ := pos
  subst hm
  exact ⟨h.hostIn, by rw [hl.nodeType h.lt_size]; exact h.kind⟩

end Position.Into

/-- Appending to a new element or fragment inserts into it. -/
theorem Position.into_inside {n doc : NodeId}
    (hk : t.nodeType n = .element ∨ t.nodeType n = .fragment) :
    (Position.inside n doc).Into t n :=
  ⟨rfl, hk⟩

end Into

/-! ## What a build leaves of the shapes already there -/

/-- The nodes below a node of the tree are nodes of the tree. -/
theorem Tree.lt_size_of_below {t : Tree} {x y : NodeId} (hx : x < t.size)
    (hy : ReflTransGen t.ParentOf x y) : y < t.size := by
  rcases hy.cases_tail with rfl | ⟨z, -, hz⟩
  · exact hx
  · exact lt_size_of_parent_eq_some hz

namespace Position.Leaves

variable {pos : Position} {t t' : Tree} {o : Option (List NodeId)} {H : NodeId}

/-- A build keeps the ancestors of the host: it changes the parent of no old node but the replaced
reference, which is below the host. -/
theorem above_host (h : pos.Leaves t t' o) (ht : t.WellFormed) (hH : pos.HostIn t H)
    (hHt : H < t.size) {a : NodeId} (ha : ReflTransGen t'.ParentOf a H) :
    ReflTransGen t.ParentOf a H := by
  induction ha using ReflTransGen.head_induction_on with
  | refl => exact .refl
  | head hab _ ih =>
    rename_i b _
    have hb : b < t.size := ht.lt_size_of_ancestor hHt ih
    exact .head ((h.parent hb (.inr (hH.ne_gone ht ih))).symm.trans hab) ih

/-- A build keeps the shape of every old node that is not the host or above it. -/
theorem shape_eq (h : pos.Leaves t t' o) (ht : t.WellFormed) (hH : pos.HostIn t H) {x : NodeId}
    (hx : x < t.size) (hxH : ¬ ReflTransGen t.ParentOf x H) : t'.shape x = t.shape x :=
  shape_congr ht h.wf fun y hy => by
    have hyt := lt_size_of_below hx hy
    refine ⟨h.content hyt, h.children hyt (.inr fun hyH => hxH ?_)⟩
    rw [hH.unique hyH]
    exact hy

/-- Nothing put in place by a build that does not replace: nothing changed at the attachment
point. -/
theorem of_nil (hm : pos.mode ≠ .replace) (h : pos.Leaves t t' (some [])) :
    pos.Leaves t t' none where
  wf := h.wf
  size_le := h.size_le
  content := h.content
  placed hins := by cases hins
  parent hx _ := h.parent hx (.inr (by
    obtain ⟨mode, ref, doc⟩ := pos
    cases mode <;> simp_all [Position.gone]))
  children {x} hx _ := by
    by_cases hin : pos.HostIn t x
    · -- the host got no new child
      have hp := (h.placed rfl).2
      obtain ⟨mode, ref, doc⟩ := pos
      cases mode with
      | parent =>
        obtain rfl : ref = x := hin
        have hp : t'.children ref = t.children ref ++ [] := hp
        rw [hp, List.append_nil]
      | before =>
        obtain ⟨p, A, B, hpar, hL, hL'⟩ := hp
        obtain rfl : x = p := Option.some.inj ((hin : t.parent ref = some x).symm.trans hpar)
        rw [hL', hL, List.append_nil]
      | after =>
        obtain ⟨p, A, B, hpar, hL, hL'⟩ := hp
        obtain rfl : x = p := Option.some.inj ((hin : t.parent ref = some x).symm.trans hpar)
        simp [hL', hL]
      | replace => exact absurd rfl hm
    · exact h.children hx (.inr hin)

/-- Appending nothing is putting an empty list in place. -/
theorem some_nil (hm : pos.mode = .parent) (h : pos.Leaves t t' none)
    (hr : pos.reference < t.size) : pos.Leaves t t' (some []) where
  wf := h.wf
  size_le := h.size_le
  content := h.content
  placed hins := by
    cases hins
    refine ⟨by simp, ?_⟩
    obtain ⟨mode, ref, doc⟩ := pos
    subst hm
    show t'.children ref = t.children ref ++ []
    rw [(h.links hr).2, List.append_nil]
  parent hx _ := (h.links hx).1
  children hx _ := (h.links hx).2

/-- A node put in place is a child of the host. -/
theorem parent_of_mem {ins : List NodeId} (h : pos.Leaves t t' (some ins)) (hH : pos.HostIn t H)
    {y : NodeId} (hy : y ∈ ins) : t'.parent y = some H := by
  have hp := (h.placed rfl).2
  refine h.wf.mem_children.1 ?_
  obtain ⟨mode, ref, doc⟩ := pos
  cases mode with
  | parent =>
    obtain rfl : ref = H := hH
    rw [show t'.children ref = t.children ref ++ ins from hp]
    exact List.mem_append_right _ hy
  | before =>
    obtain ⟨p, A, B, hpar, -, hL'⟩ := hp
    obtain rfl : H = p := Option.some.inj ((hH : t.parent ref = some H).symm.trans hpar)
    rw [hL']
    simp [hy]
  | after =>
    obtain ⟨p, A, B, hpar, -, hL'⟩ := hp
    obtain rfl : H = p := Option.some.inj ((hH : t.parent ref = some H).symm.trans hpar)
    rw [hL']
    simp [hy]
  | replace =>
    obtain ⟨p, A, B, hpar, -, hL', -⟩ := hp
    obtain rfl : H = p := Option.some.inj ((hH : t.parent ref = some H).symm.trans hpar)
    rw [hL']
    simp [hy]

end Position.Leaves

/-- A build copies a node handle that is not the host or above it as before. -/
theorem Tree.copied_of_leaves {pos : Position} {t t' : Tree} {o : Option (List NodeId)}
    {H n : NodeId} (h : pos.Leaves t t' o) (ht : t.WellFormed) (hH : pos.HostIn t H)
    (hn : n < t.size) (hnH : ¬ ReflTransGen t.ParentOf n H) : t'.copied n = t.copied n := by
  have htype : t'.nodeType n = t.nodeType n := h.nodeType hn
  have hkids : t'.children n = t.children n :=
    h.children hn (.inr fun hin => hnH (hH.unique hin ▸ .refl))
  have hinc : (t'.incoming n).map t'.shape = (t.incoming n).map t.shape := by
    unfold incoming
    rw [htype, hkids]
    split
    · exact List.map_congr_left fun c hc =>
        h.shape_eq ht hH (lt_size_of_parent_eq_some (ht.mem_children.1 hc))
          fun hcH => hnH (.head (ht.mem_children.1 hc) hcH)
    · rw [List.map_singleton, List.map_singleton, h.shape_eq ht hH hn hnH]
  unfold copied
  rw [htype, hinc]

/-! ## What a build puts in place, as shapes -/

/-- What a build at `pos` from `t` to `t'` put in place, as shapes: nothing, and then nothing
changed at the attachment point, or new nodes of shapes `L` standing where the mode puts them.
Either way the old nodes are left as `Position.Leaves` says. -/
def Position.Puts (pos : Position) (t t' : Tree) (L : List Shape) : Prop :=
  (L = [] ∧ pos.Leaves t t' none) ∨
    ∃ ins, ins ≠ [] ∧ ins.map t'.shape = L ∧ pos.Leaves t t' (some ins)

namespace Position.Puts

variable {pos : Position} {t t₁ t₂ t' : Tree} {L L₁ L₂ : List Shape}

theorem nothing (h : pos.Leaves t t' none) : pos.Puts t t' [] :=
  .inl ⟨rfl, h⟩

/-- New nodes put in place, unless the build replaces the reference with none. -/
theorem of_leaves {ins : List NodeId} (hm : pos.mode ≠ .replace ∨ ins ≠ [])
    (h : pos.Leaves t t' (some ins)) : pos.Puts t t' (ins.map t'.shape) := by
  by_cases hins : ins = []
  · subst hins
    exact .inl ⟨rfl, h.of_nil (hm.resolve_right (by simp))⟩
  · exact .inr ⟨ins, hins, rfl, h⟩

theorem exists_leaves (h : pos.Puts t t' L) : ∃ o, pos.Leaves t t' o := by
  rcases h with ⟨-, h⟩ | ⟨_, -, -, h⟩
  · exact ⟨_, h⟩
  · exact ⟨_, h⟩

/-- Appending, what was put in place are the new children of the reference, possibly none. -/
theorem exists_some (hm : pos.mode = .parent) (h : pos.Puts t t' L)
    (hr : pos.reference < t.size) : ∃ ins, ins.map t'.shape = L ∧ pos.Leaves t t' (some ins) := by
  rcases h with ⟨rfl, h⟩ | ⟨ins, -, hL, h⟩
  · exact ⟨[], rfl, h.some_nil hm hr⟩
  · exact ⟨ins, hL, h⟩

/-- Two builds in a row that append to the same node: what both put there, in order. -/
theorem append (hm : pos.mode = .parent) (hr : pos.reference < t.size) (h₁ : pos.Puts t t₁ L₁)
    (h₂ : pos.Puts t₁ t₂ L₂) : pos.Puts t t₂ (L₁ ++ L₂) := by
  obtain ⟨ins₁, hL₁, hl₁⟩ := h₁.exists_some hm hr
  have hr₁ : pos.reference < t₁.size := lt_of_lt_of_le hr hl₁.size_le
  obtain ⟨ins₂, hL₂, hl₂⟩ := h₂.exists_some hm hr₁
  have hin : ∀ u : Tree, pos.HostIn u pos.reference := by
    obtain ⟨mode, ref, doc⟩ := pos
    subst hm
    exact fun _ => rfl
  -- the nodes put in place first are children of the reference, which the second build appends to
  have hkeep : ins₁.map t₂.shape = ins₁.map t₁.shape := by
    refine List.map_congr_left fun y hy => hl₂.shape_eq hl₁.wf (hin t₁) ?_ fun hyr => ?_
    · exact lt_size_of_parent_eq_some (hl₁.parent_of_mem (hin t) hy)
    · exact hl₁.wf.not_transGen_self _ (TransGen.head' (hl₁.parent_of_mem (hin t) hy) hyr)
  have h := of_leaves (.inl (by rw [hm]; exact fun h => by cases h)) (hl₁.append_some hm hl₂)
  rwa [List.map_append, hkeep, hL₁, hL₂] at h

/-- Appending to a node that had no children: its children are the nodes put in place. -/
theorem children_eq {n doc : NodeId} (h : (Position.inside n doc).Puts t t' L)
    (hn : n < t.size) (hkids : t.children n = []) : (t'.children n).map t'.shape = L := by
  obtain ⟨ins, hL, hl⟩ := h.exists_some rfl hn
  have hp : t'.children n = t.children n ++ ins := (hl.placed rfl).2
  rw [hp, hkids, List.nil_append, hL]

end Position.Puts

/-! ## Attaching a new node -/

section Attach

variable {pos : Position} {t t₁ u : Tree} {H n : NodeId}

theorem Mode.parentOf_of_parent_eq_some {mode : Mode} {r p : NodeId} (h : t.parent r = some p) :
    mode.parentOf r t = .ok p t := by
  have hread : BuildM.read (·.parent r) t = .ok (t.parent r) t := rfl
  unfold Mode.parentOf
  rw [bind_apply_of_eq_ok hread]
  simp only [h]
  rfl

theorem Tree.checkInsertion_of_document {p c : NodeId} {rep : Option NodeId}
    (hp : (t.nodeType p).isContainer) (hc : t.nodeType c = .document) :
    t.checkInsertion p c rep = .error (.hierarchy .documentInserted) := by
  simp [checkInsertion, hp, hc, bind, Except.bind, throw, throwThe, MonadExceptOf.throw]

/-- The next sibling of a child of `p` is a child of `p`. -/
theorem Tree.parent_of_nextSibling (h : t.WellFormed) {r p s : NodeId} (hr : t.parent r = some p)
    (hs : t.nextSibling r = some s) : t.parent s = some p := by
  obtain ⟨B, hL, -⟩ := split_at (h.mem_children.2 hr)
  rw [nextSibling_eq h hr hL] at hs
  refine h.mem_children.1 ?_
  rw [hL]
  exact List.mem_append_right _ (List.mem_cons_of_mem _ (List.mem_of_mem_head? hs))

namespace Position.Into

/-- The DOM's check passes for a node that is no document and not the host or above it. -/
theorem insertionAllowed (hin : pos.Into t H) (hdoc : t.nodeType n ≠ .document)
    (hnH : ¬ ReflTransGen t.ParentOf n H) (result : List NodeId) :
    t.InsertionAllowed H n result :=
  ⟨hin.container.1, hdoc, hnH, fun hd => absurd hd hin.container.2⟩

/-- Attaching, into an element or a fragment, a node that is no document and not the host or
above it succeeds. -/
theorem attach_ok (hin : pos.Into t H) (ht : t.WellFormed) (hdoc : t.nodeType n ≠ .document)
    (hnH : ¬ ReflTransGen t.ParentOf n H) : ∃ v t', pos.mode.attach n pos.reference t = .ok v t' := by
  have hallow := hin.insertionAllowed hdoc hnH
  have hedit : ∀ {f : Tree → Except TreeError Tree} {t' : Tree}, f t = .ok t' →
      BuildM.edit f t = .ok () t' := fun he => by simp [BuildM.edit, he]
  have hH := hin.hostIn
  obtain ⟨mode, ref, doc⟩ := pos
  cases mode with
  | parent =>
    obtain rfl : ref = H := hH
    obtain ⟨t', he⟩ := (appendChild_ok_iff ht).2 (hallow _)
    exact ⟨_, _, bind_apply_of_eq_ok (hedit he)⟩
  | before =>
    have hH : t.parent ref = some H := hH
    have href : ∀ r, some ref = some r → t.parent r = some H := fun _ hr => by cases hr; exact hH
    obtain ⟨t', he⟩ := (insertBefore_ok_iff ht).2 ⟨href, hallow _⟩
    exact ⟨_, _, (bind_apply_of_eq_ok (Mode.parentOf_of_parent_eq_some hH)).trans
      (bind_apply_of_eq_ok (hedit he))⟩
  | after =>
    have hH : t.parent ref = some H := hH
    have hsib : ∀ r, t.nextSibling ref = some r → t.parent r = some H :=
      fun _ hr => parent_of_nextSibling ht hH hr
    obtain ⟨t', he⟩ := (insertBefore_ok_iff ht).2 ⟨hsib, hallow _⟩
    exact ⟨_, _, (bind_apply_of_eq_ok (Mode.parentOf_of_parent_eq_some hH)).trans
      ((bind_apply_of_eq_ok rfl).trans (bind_apply_of_eq_ok (hedit he)))⟩
  | replace =>
    have hH : t.parent ref = some H := hH
    obtain ⟨t', he⟩ := (replaceChild_ok_iff ht).2 ⟨hH, hallow _⟩
    exact ⟨_, _, (bind_apply_of_eq_ok rfl).trans ((bind_apply_of_eq_ok
      (Mode.parentOf_of_parent_eq_some hH)).trans (bind_apply_of_eq_ok (hedit he)))⟩

/-- Attaching a document fails: no insertion takes one. -/
theorem attach_document (hin : pos.Into t H) (ht : t.WellFormed) (hdoc : t.nodeType n = .document) :
    ∃ t', pos.mode.attach n pos.reference t = .error (.tree (.hierarchy .documentInserted)) t' := by
  have hcheck : ∀ rep, t.checkInsertion H n rep = .error (.hierarchy .documentInserted) :=
    fun _ => checkInsertion_of_document hin.container.1 hdoc
  have hedit : ∀ {f : Tree → Except TreeError Tree}, f t = .error (.hierarchy .documentInserted) →
      BuildM.edit f t = .error (.tree (.hierarchy .documentInserted)) t := fun he => by
    simp [BuildM.edit, he]
  have hH := hin.hostIn
  obtain ⟨mode, ref, doc⟩ := pos
  cases mode with
  | parent =>
    obtain rfl : ref = H := hH
    refine ⟨_, BuildM.bind_apply_of_eq_error (hedit ?_)⟩
    simp [appendChild, hcheck, bind, Except.bind]
  | before =>
    have hH : t.parent ref = some H := hH
    refine ⟨_, (bind_apply_of_eq_ok (Mode.parentOf_of_parent_eq_some hH)).trans
      (BuildM.bind_apply_of_eq_error (hedit ?_))⟩
    simp [insertBefore, checkChild, hH, hcheck, bind, Except.bind]
  | after =>
    have hH : t.parent ref = some H := hH
    refine ⟨_, (bind_apply_of_eq_ok (Mode.parentOf_of_parent_eq_some hH)).trans
      ((bind_apply_of_eq_ok rfl).trans (BuildM.bind_apply_of_eq_error (hedit ?_)))⟩
    cases hs : t.nextSibling ref with
    | none => simp [insertBefore, hs, hcheck, bind, Except.bind]
    | some s =>
      simp [insertBefore, checkChild, hs, parent_of_nextSibling ht hH hs, hcheck, bind, Except.bind]
  | replace =>
    have hH : t.parent ref = some H := hH
    refine ⟨_, (bind_apply_of_eq_ok rfl).trans ((bind_apply_of_eq_ok
      (Mode.parentOf_of_parent_eq_some hH)).trans (BuildM.bind_apply_of_eq_error (hedit ?_)))⟩
    simp [replaceChild, checkChild, hH, hcheck, bind, Except.bind]

end Position.Into

/-- Attaching `n`, which has no parent and is not above the host, keeps the shapes of the nodes
that move: none of them is the host or above it, and none of the nodes below them loses a child. -/
theorem Tree.Spliced.incoming_shapes {L : List NodeId} {gone : Option NodeId}
    (hs : Spliced t u H (t.incoming n) L gone) (ht : t.WellFormed) (hu : u.WellFormed)
    (hnp : t.parent n = none) (hnH : ¬ ReflTransGen t.ParentOf n H) :
    (t.incoming n).map u.shape = (t.incoming n).map t.shape := by
  refine List.map_congr_left fun m hm => hs.shape_eq ht hu fun y hy => ⟨?_, fun c hc hcm => ?_⟩
  · rintro rfl
    refine hnH (ReflTransGen.trans ?_ hy)
    unfold incoming at hm
    split at hm
    · exact .single (ht.mem_children.1 hm)
    · rw [List.mem_singleton.1 hm]
  · have hcy : t.parent c = some y := ht.mem_children.1 hc
    unfold incoming at hm hcm
    split at hcm
    · -- `c` is a child of the fragment `n`, so `y` is `n`, which is above `m`
      obtain rfl : y = n := Option.some.inj (hcy.symm.trans (ht.mem_children.1 hcm))
      rw [if_pos ‹_›] at hm
      exact ht.not_transGen_self y (TransGen.head' (ht.mem_children.1 hm) hy)
    · rw [List.mem_singleton.1 hcm, hnp] at hcy
      cases hcy

/-- A node made after `t` is not the host or above it: the ancestors of the host are old. -/
theorem Position.Into.not_above_new {o : Option (List NodeId)} (hin : pos.Into t H)
    (h₁ : pos.Leaves t t₁ o) (ht : t.WellFormed) (hn : t.size ≤ n) :
    ¬ ReflTransGen t₁.ParentOf n H := fun ha =>
  absurd (ht.lt_size_of_ancestor hin.lt_size (h₁.above_host ht hin.hostIn hin.lt_size ha))
    (Nat.not_lt.2 hn)

/-- Attaching a new node, into an element or a fragment, on a tree where no old node has changed:
the run refines what a copy of the node denotes. What moves stands where the mode puts it, with
the shapes it had. -/
theorem Position.Into.refines_attach (hin : pos.Into t H) (h₁ : pos.Leaves t t₁ none)
    (ht : t.WellFormed) (hn : t.size ≤ n) (hnp : t₁.parent n = none) :
    Refines (pos.mode.attach n pos.reference) t₁ (t₁.copied n)
      (fun _ L t' => pos.Leaves t t' (some (t₁.incoming n)) ∧ (t₁.incoming n).map t'.shape = L) := by
  have hin₁ := hin.of_leaves h₁
  have hnH := hin.not_above_new h₁ ht hn
  by_cases hdoc : t₁.nodeType n = .document
  · obtain ⟨t', he⟩ := hin₁.attach_document h₁.wf hdoc
    rw [show t₁.copied n = .error (.tree (.hierarchy .documentInserted)) by simp [copied, hdoc]]
    exact refines_of_eq_error he
  · rw [show t₁.copied n = .ok ((t₁.incoming n).map t₁.shape) by simp [copied, hdoc]]
    refine refines_of_ok (hin₁.attach_ok h₁.wf hdoc hnH) fun _ t' hx => ?_
    obtain ⟨hl, -, -, -⟩ := (h₁.ends_attach ht hin.reference_lt hn hnp).ok hx
    obtain ⟨hwf, L, hs⟩ := attach_spliced h₁.wf hin₁.lt_size hin₁.hostIn hx
    exact ⟨hl, hs.incoming_shapes h₁.wf hwf hnp hnH⟩

end Attach

end Markup
