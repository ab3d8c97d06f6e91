import Markup.Proofs.Build.Gathered
import Markup.Proofs.Tree.Reachable

/-!
# Attaching a node

`Mode.attach` puts a node, or a fragment's children, relative to a reference node and then
reads the tree again to find the node it returns. For a node with no parent on a well-formed
tree its effect is the DOM's (`Mode.attaches`): the incoming nodes `c₁ … c_k` join the
reference's children last (`parent`), or the children of the reference's parent just before
the reference, just after it, or in its place, which leaves the reference without a parent;
a fragment is left empty. Whenever something moved, the node returned is the one the
documentation names, `c_k`, or `c₁` for `after` (`Mode.landed`). An empty fragment moves
nothing: the node returned is then what already stood at the attachment point, the reference's
last child or its previous or next sibling, or the reference itself when there is none, and for
`replace` its parent, from which the reference was unlinked (`Mode.stood`).

The modes that place around the reference need it to have a parent; without one the build
fails and nothing changes (`Mode.attach_of_parent_eq_none`).
-/

namespace Markup

open Markup.Tree BuildM

/-- The node the documentation says an attachment returns: the last node put in place, or the
first for `after`. -/
def Mode.landed (m : Mode) (ins : List NodeId) : Option NodeId :=
  match m with
  | .after => ins.head?
  | .parent | .before | .replace => ins.getLast?

/-- What an attachment that puts nothing in place returns: the node standing at the attachment
point, or the reference when there is none; for `replace`, the reference's parent. -/
def Mode.stood (m : Mode) (t : Tree) (r : NodeId) : NodeId :=
  match m with
  | .parent => (t.lastChild r).getD r
  | .before => (t.prevSibling r).getD r
  | .after => (t.nextSibling r).getD r
  | .replace => (t.parent r).getD r

/-- Where the nodes `ins` go in mode `m`, from `t` to `t'`: last among `r`'s children, or among
the children of `r`'s parent just before `r`, just after it, or in its place, which leaves `r`
with no parent. -/
def Mode.Placed (m : Mode) (t t' : Tree) (ins : List NodeId) (r : NodeId) : Prop :=
  match m with
  | .parent => t'.children r = t.children r ++ ins
  | .before => ∃ p A B, t.parent r = some p ∧ t.children p = A ++ r :: B ∧
      t'.children p = A ++ ins ++ r :: B
  | .after => ∃ p A B, t.parent r = some p ∧ t.children p = A ++ r :: B ∧
      t'.children p = A ++ r :: ins ++ B
  | .replace => ∃ p A B, t.parent r = some p ∧ t.children p = A ++ r :: B ∧
      t'.children p = A ++ ins ++ B ∧ t'.parent r = none

/-- What attaching `n` relative to `r` in mode `m` does, from `t` to `t'`, returning `v`. The
nodes that move are `t.incoming n`: the children of a fragment, or `n` itself. -/
structure Mode.Attaches (m : Mode) (t t' : Tree) (n r v : NodeId) : Prop where
  placed : m.Placed t t' (t.incoming n) r
  /-- A fragment hands over its children. -/
  emptied : t.nodeType n = .fragment → t'.children n = []
  landed : t.incoming n ≠ [] → some v = m.landed (t.incoming n)
  stood : t.incoming n = [] → v = m.stood t r

/-! ## Lists -/

theorem takeWhile_ne_append {A B : List NodeId} {r : NodeId} (hr : r ∉ A) :
    (A ++ r :: B).takeWhile (· ≠ r) = A := by
  rw [List.takeWhile_append_of_pos (fun x hx => by simpa using fun hxr : x = r => hr (hxr ▸ hx))]
  simp

theorem dropWhile_ne_append {A B : List NodeId} {r : NodeId} (hr : r ∉ A) :
    (A ++ r :: B).dropWhile (· ≠ r) = r :: B := by
  rw [List.dropWhile_append_of_pos (fun x hx => by simpa using fun hxr : x = r => hr (hxr ▸ hx))]
  simp

theorem filter_not_mem_eq_self {X M : List NodeId} (h : ∀ x ∈ X, x ∉ M) :
    X.filter (· ∉ M) = X :=
  List.filter_eq_self.2 fun x hx => decide_eq_true (h x hx)

/-- Nodes put before `r` land just before it. -/
theorem spliceBefore_split {A B M : List NodeId} {r : NodeId} (hrA : r ∉ A)
    (hM : ∀ x ∈ A ++ r :: B, x ∉ M) :
    spliceBefore (A ++ r :: B) M (some r) = A ++ M ++ r :: B := by
  rw [spliceBefore, takeWhile_ne_append hrA, dropWhile_ne_append hrA,
    filter_not_mem_eq_self fun x hx => hM x (List.mem_append_left _ hx),
    filter_not_mem_eq_self fun x hx => hM x (List.mem_append_right A hx)]

/-- Nodes put before the sibling after `r` land just after `r`. -/
theorem spliceBefore_head? {A B M : List NodeId} {r : NodeId} (hnd : (A ++ r :: B).Nodup)
    (hM : ∀ x ∈ A ++ r :: B, x ∉ M) :
    spliceBefore (A ++ r :: B) M B.head? = A ++ r :: M ++ B := by
  cases B with
  | nil =>
    rw [List.head?_nil, spliceBefore, filter_not_mem_eq_self hM]
    simp
  | cons b B =>
    -- cut the list again at `b`, the sibling the nodes go before
    have hsplit : A ++ r :: b :: B = (A ++ [r]) ++ b :: B := by simp
    have hb : b ∉ A ++ [r] := by
      rw [hsplit] at hnd
      exact fun hb => (List.nodup_append.1 hnd).2.2 b hb b List.mem_cons_self rfl
    rw [hsplit] at hM
    rw [hsplit, List.head?_cons, spliceBefore_split hb hM]
    simp

/-- Nodes put in `r`'s place replace it. -/
theorem spliceReplace_split {A B M : List NodeId} {r : NodeId} (hrA : r ∉ A)
    (hM : ∀ x ∈ A ++ r :: B, x ∉ M) : spliceReplace (A ++ r :: B) M r = A ++ M ++ B := by
  rw [spliceReplace, takeWhile_ne_append hrA, dropWhile_ne_append hrA, List.drop_one,
    List.tail_cons, filter_not_mem_eq_self fun x hx => hM x (List.mem_append_left _ hx),
    filter_not_mem_eq_self fun x hx => hM x (by simp [hx])]

/-! ## Reading an attachment's run -/

variable {m : Mode} {t t' : Tree} {n r v : NodeId}

theorem BuildM.read_bind_pure {α β : Type} (f : Tree → α) (g : α → β) (t : Tree) :
    (read f >>= fun a => pure (g a)) t = .ok (g (f t)) t :=
  rfl

theorem BuildM.bind_apply_of_eq_error {α β : Type} {x : BuildM α} {f : α → BuildM β}
    {e : BuildError} {t₁ : Tree} (h : x t = .error e t₁) : (x >>= f) t = .error e t₁ := by
  change EStateM.bind x f t = _
  simp only [EStateM.bind, h]

theorem Mode.parentOf_of_parent_eq_none (hr : t.parent r = none) :
    m.parentOf r t = .error (.detachedReference m) t := by
  have hread : BuildM.read (·.parent r) t = .ok (t.parent r) t := rfl
  unfold Mode.parentOf
  rw [bind_apply_of_eq_ok hread]
  simp only [hr]
  rfl

/-- A mode that places around the reference fails, changing nothing, when the reference has no
parent. -/
theorem Mode.attach_of_parent_eq_none (hm : m ≠ .parent) (hr : t.parent r = none) :
    m.attach n r t = .error (.detachedReference m) t := by
  cases m with
  | parent => exact absurd rfl hm
  | before => exact BuildM.bind_apply_of_eq_error (Mode.parentOf_of_parent_eq_none hr)
  | after => exact BuildM.bind_apply_of_eq_error (Mode.parentOf_of_parent_eq_none hr)
  | replace =>
    exact (bind_apply_of_eq_ok rfl).trans
      (BuildM.bind_apply_of_eq_error (Mode.parentOf_of_parent_eq_none hr))

/-- A child of a node other than `n` is not among the nodes that move. -/
theorem not_mem_incoming (h : t.WellFormed) (hn : t.parent n = none) {p x : NodeId}
    (hpn : p ≠ n) (hxp : t.parent x = some p) : x ∉ t.incoming n := by
  unfold incoming
  split
  · exact fun hxn => hpn (Option.some.inj (hxp.symm.trans (h.mem_children.1 hxn)))
  · rw [List.mem_singleton]
    rintro rfl
    simp [hn] at hxp

/-- A child list cut at `r`, with the nodes that move kept out of it. -/
theorem split_children (h : t.WellFormed) (hn : t.parent n = none) {p : NodeId} (hpn : p ≠ n)
    (hpar : t.parent r = some p) : ∃ A B, t.children p = A ++ r :: B ∧ r ∉ A ∧
      (A ++ r :: B).Nodup ∧ ∀ x ∈ A ++ r :: B, x ∉ t.incoming n := by
  obtain ⟨B, hL, -⟩ := split_at (h.mem_children.2 hpar)
  have hnd := h.nodup p
  refine ⟨_, B, hL, fun hr => ?_, hL ▸ hnd, fun x hx => ?_⟩
  · rw [hL, List.nodup_append] at hnd
    exact hnd.2.2 r hr r (List.mem_cons_self) rfl
  · exact not_mem_incoming h hn hpn (h.mem_children.1 (hL ▸ hx))

/-- The last node a fragment hands over, or the node itself. -/
theorem getLast?_incoming (t : Tree) (n : NodeId) :
    (if (t.nodeType n == .fragment) = true then t.lastChild n else some n) =
      (t.incoming n).getLast? := by
  unfold incoming lastChild
  by_cases hfr : t.nodeType n = .fragment <;> simp [hfr]

/-! ## The four modes -/

theorem Mode.attaches_parent (h : t.WellFormed) (hn : t.parent n = none) (hr : r < t.size)
    (hrun : Mode.parent.attach n r t = .ok v t') : Mode.parent.Attaches t t' n r v := by
  obtain ⟨_, t₁, hedit, hrest⟩ := bind_eq_ok hrun
  have he := edit_eq_ok hedit
  rw [BuildM.read_bind_pure] at hrest
  obtain ⟨rfl, rfl⟩ := EStateM.Result.ok.inj hrest
  have hnr : r ≠ n := fun hrn => ((appendChild_ok_iff h).1 ⟨_, he⟩).2.2.1 (hrn ▸ .refl)
  have hs := appendChild_spliced h hr he
  have hkids : t₁.children r = t.children r ++ t.incoming n := by
    rw [hs.children_self, spliceBefore,
      filter_not_mem_eq_self fun x hx => not_mem_incoming h hn hnr (h.mem_children.1 hx)]
  refine ⟨hkids, fun hfr => hs.children_fragment hfr (Ne.symm hnr), fun hne => ?_,
    fun hnil => ?_⟩
  · rw [Mode.landed, lastChild, hkids, List.getLast?_append_of_ne_nil _ hne,
      List.getLast?_eq_some_getLast hne]
    rfl
  · rw [Mode.stood, lastChild, lastChild, hkids, hnil, List.append_nil]

theorem Mode.attaches_before (h : t.WellFormed) (hn : t.parent n = none)
    (hrun : Mode.before.attach n r t = .ok v t') : Mode.before.Attaches t t' n r v := by
  obtain ⟨p, t₁, hp, hrest⟩ := bind_eq_ok hrun
  obtain ⟨hpar, ht₁⟩ := Mode.parentOf_eq_ok hp
  rw [ht₁] at hrest
  obtain ⟨_, t₂, hedit, hrest⟩ := bind_eq_ok hrest
  have he := edit_eq_ok hedit
  rw [BuildM.read_bind_pure] at hrest
  obtain ⟨rfl, rfl⟩ := EStateM.Result.ok.inj hrest
  have hpn : p ≠ n := fun hpn => ((insertBefore_ok_iff h).1 ⟨_, he⟩).2.2.2.1 (hpn ▸ .refl)
  have hs := insertBefore_spliced h (h.parent_lt hpar) he
  obtain ⟨A, B, hL, hrA, -, hM⟩ := split_children h hn hpn hpar
  have hkids : t₂.children p = A ++ t.incoming n ++ r :: B := by
    rw [hs.children_self, hL, spliceBefore_split hrA hM]
  have hprev : t₂.prevSibling r = (A ++ t.incoming n).getLast? := by
    refine prevSibling_eq (h.insertBefore (h.parent_lt hpar) he) ?_ hkids
    rw [hs.parent_other (hM r (by simp)), if_neg (by simp), hpar]
  refine ⟨⟨p, A, B, hpar, hL, hkids⟩, fun hfr => hs.children_fragment hfr (Ne.symm hpn),
    fun hne => ?_, fun hnil => ?_⟩
  · rw [Mode.landed, hprev, List.getLast?_append_of_ne_nil _ hne,
      List.getLast?_eq_some_getLast hne]
    rfl
  · rw [Mode.stood, hprev, hnil, List.append_nil, prevSibling_eq h hpar hL]

theorem Mode.attaches_after (h : t.WellFormed) (hn : t.parent n = none)
    (hrun : Mode.after.attach n r t = .ok v t') : Mode.after.Attaches t t' n r v := by
  obtain ⟨p, t₁, hp, hrest⟩ := bind_eq_ok hrun
  obtain ⟨hpar, ht₁⟩ := Mode.parentOf_eq_ok hp
  rw [ht₁] at hrest
  obtain ⟨next, t₂, hnext, hrest⟩ := bind_eq_ok hrest
  obtain ⟨rfl, rfl⟩ : t.nextSibling r = next ∧ t = t₂ := by
    cases hnext; exact ⟨rfl, rfl⟩
  obtain ⟨_, t₃, hedit, hrest⟩ := bind_eq_ok hrest
  have he := edit_eq_ok hedit
  rw [BuildM.read_bind_pure] at hrest
  obtain ⟨rfl, rfl⟩ := EStateM.Result.ok.inj hrest
  have hpn : p ≠ n := fun hpn => ((insertBefore_ok_iff h).1 ⟨_, he⟩).2.2.2.1 (hpn ▸ .refl)
  have hs := insertBefore_spliced h (h.parent_lt hpar) he
  obtain ⟨A, B, hL, -, hnd, hM⟩ := split_children h hn hpn hpar
  have hkids : t₃.children p = A ++ r :: (t.incoming n ++ B) := by
    rw [hs.children_self, nextSibling_eq h hpar hL, hL, spliceBefore_head? hnd hM]
    simp
  have hnext : t₃.nextSibling r = (t.incoming n ++ B).head? := by
    refine nextSibling_eq (h.insertBefore (h.parent_lt hpar) he) ?_ hkids
    rw [hs.parent_other (hM r (by simp)), if_neg (by simp), hpar]
  refine ⟨⟨p, A, B, hpar, hL, by simpa using hkids⟩,
    fun hfr => hs.children_fragment hfr (Ne.symm hpn), fun hne => ?_, fun hnil => ?_⟩
  · rw [Mode.landed, hnext, List.head?_append_of_ne_nil _ hne, List.head?_eq_some_head hne]
    rfl
  · rw [Mode.stood, hnext, hnil, List.nil_append, nextSibling_eq h hpar hL]

theorem Mode.attaches_replace (h : t.WellFormed) (hn : t.parent n = none)
    (hrun : Mode.replace.attach n r t = .ok v t') : Mode.replace.Attaches t t' n r v := by
  obtain ⟨last, t₁, hlast, hrest⟩ := bind_eq_ok hrun
  obtain ⟨rfl, rfl⟩ : (t.incoming n).getLast? = last ∧ t = t₁ := by
    cases hlast; exact ⟨(getLast?_incoming t n).symm, rfl⟩
  obtain ⟨p, t₂, hp, hrest⟩ := bind_eq_ok hrest
  obtain ⟨hpar, ht₂⟩ := Mode.parentOf_eq_ok hp
  rw [ht₂] at hrest
  obtain ⟨_, t₃, hedit, hret⟩ := bind_eq_ok hrest
  have he := edit_eq_ok hedit
  cases hret
  have hpn : p ≠ n := fun hpn => ((replaceChild_ok_iff h).1 ⟨_, he⟩).2.2.2.1 (hpn ▸ .refl)
  have hs := replaceChild_spliced h (h.parent_lt hpar) he
  obtain ⟨A, B, hL, hrA, -, hM⟩ := split_children h hn hpn hpar
  have hgone : t'.parent r = none := by
    rw [hs.parent_other (hM r (by simp)), if_pos rfl]
  have hkids : t'.children p = A ++ t.incoming n ++ B := by
    rw [hs.children_self, hL, spliceReplace_split hrA hM]
  refine ⟨⟨p, A, B, hpar, hL, hkids, hgone⟩,
    fun hfr => hs.children_fragment hfr (Ne.symm hpn), fun hne => ?_, fun hnil => ?_⟩
  · rw [Mode.landed, List.getLast?_eq_some_getLast hne]
    rfl
  · rw [hnil, Mode.stood, hpar]
    rfl

/-- Attaching a node with no parent does what the DOM does in each mode (`Mode.Attaches`). -/
theorem Mode.attaches (h : t.WellFormed) (hn : t.parent n = none) (hr : r < t.size)
    (hrun : m.attach n r t = .ok v t') : m.Attaches t t' n r v := by
  cases m with
  | parent => exact Mode.attaches_parent h hn hr hrun
  | before => exact Mode.attaches_before h hn hrun
  | after => exact Mode.attaches_after h hn hrun
  | replace => exact Mode.attaches_replace h hn hrun

/-! ## On reachable trees -/

/-- Attaching a node with no parent relative to a node of a reachable tree. Placing around a
reference with no parent fails with `detachedReference` and leaves the tree as it was; a run
that succeeds moves the incoming nodes as the DOM does and returns the node `Mode.Attaches`
names: the last node moved (the first for `after`), or, when an empty fragment moved nothing,
the node already at the attachment point. -/
theorem Mode.attach_places (hreach : t.Reachable) (hn : t.parent n = none) (hr : r < t.size) :
    (m ≠ .parent → t.parent r = none → m.attach n r t = .error (.detachedReference m) t) ∧
    ∀ v u, m.attach n r t = .ok v u → m.Attaches t u n r v :=
  ⟨Mode.attach_of_parent_eq_none, fun _ _ hrun => Mode.attaches hreach.wellFormed hn hr hrun⟩

/-- Before the document, which has no parent, nothing is placed; before the element `a` the new
element lands and is returned. -/
theorem Mode.attach_places_before_child :
    let T := (Op.createElement 0 "new").apply ((Op.appendChild 1 2).apply
      ((Op.createElement 0 "a").apply ((Op.appendChild 0 1).apply
        ((Op.createElement 0 "root").apply (Op.createDocument.apply Tree.empty)))))
    Mode.before.attach 3 0 T = .error (.detachedReference .before) T ∧
      ∃ u, Mode.before.attach 3 2 T = .ok 3 u ∧ Mode.before.Attaches T u 3 2 3 := by
  intro T
  have hreach : T.Reachable :=
    .step _ (.step _ (.step _ (.step _ (.step _ (.step _ .empty trivial) trivial) (by decide))
      trivial) (by decide)) trivial
  have hn : T.parent 3 = none := rfl
  refine ⟨(Mode.attach_places hreach hn (by decide)).1 (by decide) rfl, ?_⟩
  obtain ⟨u, hu⟩ : ∃ u, Mode.before.attach 3 2 T = .ok 3 u := ⟨_, rfl⟩
  exact ⟨u, hu, (Mode.attach_places hreach hn (by decide)).2 3 u hu⟩

/-- An empty fragment moves nothing: attached under the element `root` it leaves `root`
without children, and the run returns `root` itself, not the fragment. -/
theorem Mode.attach_empty_fragment :
    let T := (Op.createFragment 0).apply ((Op.createElement 0 "root").apply
      (Op.createDocument.apply Tree.empty))
    T.nodeType 2 = .fragment ∧ T.children 2 = [] ∧ Mode.parent.attach 2 1 T = .ok 1 T ∧
      T.children 1 = [] :=
  ⟨rfl, rfl, rfl, rfl⟩

end Markup
