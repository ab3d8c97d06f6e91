import Markup.Proofs.Tree.Access
import Mathlib.Logic.Relation
import Mathlib.Order.WellFounded
import Mathlib.Data.Finset.Card

/-!
# Well-formed trees

The shape that every tree built by the tree operations keeps. The child lists and the parent
links describe the same edges, a child list holds a node once, following parents always ends,
only documents, fragments and elements hold children, documents and fragments are never
children, a document holds no text, no CDATA section and one element at most, and the
attributes of an element differ in namespace or local name.

Two consequences carry most later proofs. The ancestor test, which looks at most one more
parent up than there are nodes, decides the ancestor relation exactly. And a *splice*, which
moves some nodes into one parent's child list and detaches one more node, keeps the shape as
long as no moved node is an ancestor of the new parent.
-/

namespace Markup

namespace NodeType

/-- What a document may hold, read off the kinds of its children: no text, no CDATA section,
and at most one element. -/
def DocumentAllows (ts : List NodeType) : Prop :=
  (∀ ty ∈ ts, ty ≠ .text ∧ ty ≠ .cdata) ∧ ts.count .element ≤ 1

theorem DocumentAllows.sublist {ts us : List NodeType} (h : DocumentAllows ts)
    (hs : us.Sublist ts) : DocumentAllows us :=
  ⟨fun ty hty => h.1 ty (hs.subset hty), (hs.count_le _).trans h.2⟩

end NodeType

/-- Attributes of an element are told apart by namespace and local name. -/
def Attr.key (a : Attr) : Option String × String := (a.ns, a.localName)

namespace Tree

open Relation

variable {t t' : Tree}

/-- `p` is the parent of `c`. -/
def ParentOf (t : Tree) (p c : NodeId) : Prop := t.parent c = some p

/-- The shape every reachable tree keeps. -/
structure WellFormed (t : Tree) : Prop where
  /-- The child lists and the parent links describe the same edges. -/
  mem_children : ∀ {p c}, c ∈ t.children p ↔ t.parent c = some p
  nodup : ∀ p, (t.children p).Nodup
  /-- Following parents always ends. -/
  acyclic : WellFounded t.ParentOf
  container : ∀ {p c}, t.parent c = some p → (t.nodeType p).isContainer
  rooted : ∀ {p c}, t.parent c = some p → t.nodeType c ≠ .document ∧ t.nodeType c ≠ .fragment
  document : ∀ {d}, t.nodeType d = .document →
    NodeType.DocumentAllows ((t.children d).map t.nodeType)
  attr_keys : ∀ {n e}, t.element? n = some e → (e.attrs.map Attr.key).Nodup
  /-- An attribute with no namespace has no prefix: only setting by qualified name makes one,
  and it stores the whole name as the local name. -/
  plain_attrs : ∀ {n e a}, t.element? n = some e → a ∈ e.attrs → a.ns = none → a.prefixName = none

namespace WellFormed

theorem parent_lt (h : t.WellFormed) (hc : t.parent c = some p) : p < t.size :=
  lt_size_of_mem_children (h.mem_children.2 hc)

theorem not_transGen_self (h : t.WellFormed) (n : NodeId) : ¬ TransGen t.ParentOf n n :=
  fun hn => h.acyclic.transGen.irrefl.irrefl n hn

end WellFormed

/-! ## Ancestors -/

/-- The `k`-th ancestor of a node, the node itself being the `0`-th. -/
def ancestorAt (t : Tree) : Nat → NodeId → Option NodeId
  | 0, n => some n
  | k + 1, n => (t.parent n).bind (t.ancestorAt k)

theorem ancestorAt_add (t : Tree) (j k : Nat) (n : NodeId) :
    t.ancestorAt (j + k) n = (t.ancestorAt j n).bind (t.ancestorAt k) := by
  induction j generalizing n with
  | zero => simp [ancestorAt]
  | succ j ih =>
    rw [Nat.add_right_comm]
    simp only [ancestorAt, Option.bind_assoc, ih]

theorem reflTransGen_iff_ancestorAt :
    ReflTransGen t.ParentOf a n ↔ ∃ k, t.ancestorAt k n = some a := by
  constructor
  · intro h
    induction h with
    | refl => exact ⟨0, rfl⟩
    | tail _ hbc ih =>
      obtain ⟨k, hk⟩ := ih
      exact ⟨k + 1, by simp only [ancestorAt, ParentOf] at hbc ⊢; simp [hbc, hk]⟩
  · rintro ⟨k, hk⟩
    induction k generalizing n with
    | zero =>
      cases hk
      exact ReflTransGen.refl
    | succ k ih =>
      simp only [ancestorAt] at hk
      obtain ⟨b, hb, hk⟩ := Option.bind_eq_some_iff.1 hk
      exact ReflTransGen.tail (ih hk) hb

theorem isAncestorWithin_iff :
    t.isAncestorWithin a fuel n = true ↔ ∃ k < fuel, t.ancestorAt k n = some a := by
  induction fuel generalizing n with
  | zero => simp [isAncestorWithin]
  | succ fuel ih =>
    simp only [isAncestorWithin, beq_iff_eq]
    by_cases hn : n = a
    · simp only [hn, if_true, true_iff]
      exact ⟨0, Nat.zero_lt_succ _, rfl⟩
    · simp only [hn, if_false]
      constructor
      · intro h
        split at h
        · next p hp =>
          obtain ⟨k, hk, hka⟩ := ih.1 h
          exact ⟨k + 1, Nat.succ_lt_succ hk, by simp [ancestorAt, hp, hka]⟩
        · cases h
      · rintro ⟨k, hk, hka⟩
        cases k with
        | zero => exact absurd (Option.some.inj hka) hn
        | succ k =>
          simp only [ancestorAt] at hka
          obtain ⟨p, hp, hka⟩ := Option.bind_eq_some_iff.1 hka
          rw [hp]
          exact ih.2 ⟨k, Nat.lt_of_succ_lt_succ hk, hka⟩

namespace WellFormed

/-- A node is its own ancestor only at distance zero. -/
theorem ancestorAt_self (h : t.WellFormed) (hx : t.ancestorAt k x = some x) : k = 0 := by
  cases k with
  | zero => rfl
  | succ k =>
    simp only [ancestorAt] at hx
    obtain ⟨y, hy, hyx⟩ := Option.bind_eq_some_iff.1 hx
    exact absurd (TransGen.tail' (reflTransGen_iff_ancestorAt.2 ⟨k, hyx⟩) hy)
      (h.not_transGen_self x)

/-- No chain of parents is longer than the number of nodes: its members past the first are
distinct nodes of the tree. -/
theorem ancestorAt_le (h : t.WellFormed) (hk : t.ancestorAt k n = some a) : k ≤ t.size := by
  by_contra hlt
  have hdef : ∀ i ≤ k, ∃ x, t.ancestorAt i n = some x := by
    intro i hi
    have := t.ancestorAt_add i (k - i) n
    rw [Nat.add_sub_cancel' hi, hk] at this
    cases hx : t.ancestorAt i n with
    | none => rw [hx] at this; cases this
    | some x => exact ⟨x, rfl⟩
  let f : Nat → Nat := fun i => (t.ancestorAt (i + 1) n).getD 0
  have hf : ∀ i < k, t.ancestorAt (i + 1) n = some (f i) ∧ f i < t.size := by
    intro i hi
    obtain ⟨y, hy⟩ := hdef i (Nat.le_of_lt hi)
    obtain ⟨x, hx⟩ := hdef (i + 1) hi
    have hstep := t.ancestorAt_add i 1 n
    rw [hy, hx] at hstep
    simp only [ancestorAt, Option.bind_some] at hstep
    obtain ⟨p, hp, hpx⟩ := Option.bind_eq_some_iff.1 hstep.symm
    cases hpx
    exact ⟨by simp [f, hx], by simpa [f, hx] using h.parent_lt hp⟩
  obtain ⟨i, hi, j, hj, hij, hfij⟩ :=
    Finset.exists_ne_map_eq_of_card_lt_of_maps_to (s := Finset.range k)
      (t := Finset.range t.size) (f := f) (by simpa using Nat.lt_of_not_le hlt)
      (fun i hi => by simpa using (hf i (by simpa using hi)).2)
  simp only [Finset.mem_range] at hi hj
  -- the two positions hold the same node, so the stretch between them is a cycle
  have key : ∀ i j, i < j → j < k → f i = f j → False := by
    intro i j hij hj hfij
    have hsplit := t.ancestorAt_add (i + 1) (j - i) n
    rw [show i + 1 + (j - i) = j + 1 by omega, (hf j hj).1, (hf i (by omega)).1,
      Option.bind_some, ← hfij] at hsplit
    have := h.ancestorAt_self hsplit.symm
    omega
  rcases Nat.lt_or_gt_of_ne hij with hlt' | hlt'
  · exact key i j hlt' hj hfij
  · exact key j i hlt' hi hfij.symm

/-- The ancestor test decides the inclusive ancestor relation. -/
theorem isInclusiveAncestor_iff (h : t.WellFormed) :
    t.isInclusiveAncestor a n = true ↔ ReflTransGen t.ParentOf a n := by
  rw [isInclusiveAncestor, isAncestorWithin_iff, reflTransGen_iff_ancestorAt]
  constructor
  · rintro ⟨k, -, hk⟩
    exact ⟨k, hk⟩
  · rintro ⟨k, hk⟩
    exact ⟨k, Nat.lt_succ_of_le (h.ancestorAt_le hk), hk⟩

end WellFormed

/-! ## Splicing -/

/-- `t'` is `t` with the nodes `moved` taken out of the child lists they were in and made
children of `p`, whose child list becomes `L`, and with `gone` unlinked from its parent.
Nothing else changes. -/
structure Spliced (t t' : Tree) (p : NodeId) (moved L : List NodeId) (gone : Option NodeId) :
    Prop where
  size_eq : t'.size = t.size
  content_eq : ∀ x, (t'.get x).content = (t.get x).content
  owner_eq : ∀ x, t'.owner x = t.owner x
  children_self : t'.children p = L
  children_other : ∀ {q}, q ≠ p → t'.children q = (t.children q).filter (· ∉ moved)
  parent_moved : ∀ {x}, x ∈ moved → t'.parent x = some p
  parent_other : ∀ {x}, x ∉ moved → t'.parent x = if some x = gone then none else t.parent x

namespace Spliced

variable {p : NodeId} {moved L : List NodeId} {gone : Option NodeId}

theorem nodeType_eq (hs : Spliced t t' p moved L gone) (x : NodeId) :
    t'.nodeType x = t.nodeType x := by
  simp only [nodeType, hs.content_eq]

theorem element?_eq (hs : Spliced t t' p moved L gone) (x : NodeId) :
    t'.element? x = t.element? x := by
  simp only [element?, hs.content_eq]

/-- A new parent edge ends at `p`; any other edge of `t'` is an edge of `t`. -/
theorem parentOf (hs : Spliced t t' p moved L gone) (hxy : t'.ParentOf y x) :
    (x ∈ moved ∧ y = p) ∨ (x ∉ moved ∧ t.ParentOf y x) := by
  by_cases hx : x ∈ moved
  · rw [ParentOf, hs.parent_moved hx] at hxy
    exact .inl ⟨hx, (Option.some.inj hxy).symm⟩
  · rw [ParentOf, hs.parent_other hx] at hxy
    split at hxy
    · cases hxy
    · exact .inr ⟨hx, hxy⟩

end Spliced

namespace WellFormed

variable {p : NodeId} {moved L : List NodeId} {gone : Option NodeId}

/-- After a splice that moves no node under itself, following parents still ends. -/
theorem acyclic_of_spliced (h : t.WellFormed) (hs : Spliced t t' p moved L gone)
    (hanc : ∀ m ∈ moved, ¬ ReflTransGen t.ParentOf m p) : WellFounded t'.ParentOf := by
  -- below no moved node, the parents of `t'` are those of `t`
  have above : ∀ x, (∀ m ∈ moved, ¬ ReflTransGen t.ParentOf m x) → Acc t'.ParentOf x := by
    intro x
    refine h.acyclic.induction x (C := fun x => (∀ m ∈ moved, ¬ ReflTransGen t.ParentOf m x) →
      Acc t'.ParentOf x) ?_
    intro x ih hx
    refine .intro x fun y hy => ?_
    rcases hs.parentOf hy with ⟨hm, -⟩ | ⟨-, hy⟩
    · exact absurd ReflTransGen.refl (hx x hm)
    · exact ih y hy fun m hm hmy => hx m hm (hmy.tail hy)
  have hp : Acc t'.ParentOf p := above p hanc
  refine ⟨fun x => h.acyclic.induction x (C := fun x => Acc t'.ParentOf x) ?_⟩
  intro x ih
  refine .intro x fun y hy => ?_
  rcases hs.parentOf hy with ⟨-, rfl⟩ | ⟨-, hy⟩
  · exact hp
  · exact ih y hy

/-- A splice keeps the shape when the moved nodes may be children, are no ancestors of their
new parent, and the new child list is exactly the moved nodes with `p`'s remaining children. -/
theorem spliced (h : t.WellFormed) (hs : Spliced t t' p moved L gone)
    (hL : ∀ x, x ∈ L ↔ x ∈ moved ∨ (t.parent x = some p ∧ some x ≠ gone)) (hLnd : L.Nodup)
    (hgone : ∀ g, gone = some g → g ∉ moved → t.parent g = some p)
    (hanc : ∀ m ∈ moved, ¬ ReflTransGen t.ParentOf m p)
    (hcont : moved ≠ [] → (t.nodeType p).isContainer)
    (hkind : ∀ m ∈ moved, t.nodeType m ≠ .document ∧ t.nodeType m ≠ .fragment)
    (hdoc : t.nodeType p = .document → NodeType.DocumentAllows (L.map t.nodeType)) :
    t'.WellFormed where
  mem_children {q x} := by
    by_cases hq : q = p
    · subst hq
      rw [hs.children_self, hL]
      by_cases hx : x ∈ moved
      · simp [hx, hs.parent_moved hx]
      · rw [hs.parent_other hx]
        split
        · next hg => simp [hx, hg]
        · next hg => simp [hx, hg]
    · rw [hs.children_other hq, List.mem_filter, h.mem_children]
      by_cases hx : x ∈ moved
      · simp [hx, hs.parent_moved hx, Ne.symm hq]
      · rw [hs.parent_other hx]
        split
        · next hg =>
          have hxp := hgone x hg.symm hx
          simp [hx, hxp, Ne.symm hq]
        · simp [hx]
  nodup q := by
    by_cases hq : q = p
    · subst hq
      rw [hs.children_self]
      exact hLnd
    · rw [hs.children_other hq]
      exact (h.nodup q).filter _
  acyclic := h.acyclic_of_spliced hs hanc
  container {q c} hc := by
    rw [hs.nodeType_eq]
    rcases hs.parentOf hc with ⟨hm, rfl⟩ | ⟨-, hc⟩
    · exact hcont (List.ne_nil_of_mem hm)
    · exact h.container hc
  rooted {q c} hc := by
    rw [hs.nodeType_eq]
    rcases hs.parentOf hc with ⟨hm, -⟩ | ⟨-, hc⟩
    · exact hkind c hm
    · exact h.rooted hc
  document {d} hd := by
    rw [hs.nodeType_eq] at hd
    have hmap : ∀ l : List NodeId, l.map t'.nodeType = l.map t.nodeType := fun l =>
      List.map_congr_left fun x _ => hs.nodeType_eq x
    by_cases hdp : d = p
    · subst hdp
      rw [hs.children_self, hmap]
      exact hdoc hd
    · rw [hs.children_other hdp, hmap]
      exact (h.document hd).sublist (List.filter_sublist.map _)
  attr_keys {n e} he := h.attr_keys (by rwa [hs.element?_eq] at he)
  plain_attrs {n e a} he := h.plain_attrs (by rwa [hs.element?_eq] at he)

/-! ## Making and changing nodes -/

/-- A new node has no links; the tree keeps its shape when the node's attributes do. -/
theorem alloc (h : t.WellFormed) (c : Content) (o : Option NodeId)
    (hc : ∀ e, c = .element e →
      (e.attrs.map Attr.key).Nodup ∧ ∀ a ∈ e.attrs, a.ns = none → a.prefixName = none) :
    (t.alloc c o).1.WellFormed := by
  have hold : ∀ {x p}, t.parent x = some p → x ≠ t.size ∧ p ≠ t.size := fun hx =>
    ⟨Nat.ne_of_lt (lt_size_of_parent_eq_some hx), Nat.ne_of_lt (h.parent_lt hx)⟩
  have hsub : ∀ {y x}, (t.alloc c o).1.ParentOf y x → t.ParentOf y x := by
    intro y x hxy
    simp only [ParentOf, parent_alloc] at hxy ⊢
    split at hxy
    · cases hxy
    · exact hxy
  refine ⟨?_, ?_, Subrelation.wf hsub h.acyclic, ?_, ?_, ?_, ?_, ?_⟩
  · intro p x
    rw [children_alloc, parent_alloc]
    by_cases hp : p = t.size
    · subst hp
      simp only [if_true, List.not_mem_nil, false_iff]
      split
      · simp
      · exact fun hx => (hold hx).2 rfl
    · simp only [hp, if_false, h.mem_children]
      split
      · next hx => subst hx; simp only [reduceCtorEq, iff_false]; exact fun hx => (hold hx).1 rfl
      · rfl
  · intro p
    rw [children_alloc]
    split
    · exact List.nodup_nil
    · exact h.nodup p
  · intro p x hx
    simp only [parent_alloc] at hx
    split at hx
    · cases hx
    · rw [nodeType_alloc, if_neg (hold hx).2]
      exact h.container hx
  · intro p x hx
    simp only [parent_alloc] at hx
    split at hx
    · cases hx
    · rw [nodeType_alloc, if_neg (hold hx).1]
      exact h.rooted hx
  · intro d hd
    rw [children_alloc]
    split
    · exact ⟨by simp, by simp⟩
    · next hdn =>
      rw [nodeType_alloc, if_neg hdn] at hd
      have hmap : (t.children d).map (t.alloc c o).1.nodeType = (t.children d).map t.nodeType :=
        List.map_congr_left fun x hx => by
          rw [nodeType_alloc, if_neg (hold (h.mem_children.1 hx)).1]
      rw [hmap]
      exact h.document hd
  · intro n e he
    rw [element?_alloc] at he
    split at he
    · split at he
      · cases he
        exact (hc _ rfl).1
      · cases he
    · exact h.attr_keys he
  · intro n e a he
    rw [element?_alloc] at he
    split at he
    · split at he
      · cases he
        exact (hc _ rfl).2 a
      · cases he
    · exact h.plain_attrs he

/-- Changing an element's data keeps the shape when its new attributes keep theirs. -/
theorem modifyElement (h : t.WellFormed) (n : NodeId) (f : Element → Element)
    (hf : ∀ e, t.element? n = some e →
      ((f e).attrs.map Attr.key).Nodup ∧ ∀ a ∈ (f e).attrs, a.ns = none → a.prefixName = none) :
    (t.modifyElement n f).WellFormed := by
  have hpar : (t.modifyElement n f).ParentOf = t.ParentOf := by
    funext y x
    simp only [ParentOf, parent_modifyElement]
  refine ⟨?_, ?_, hpar ▸ h.acyclic, ?_, ?_, ?_, ?_, ?_⟩
  · intro p x
    rw [children_modifyElement, parent_modifyElement]
    exact h.mem_children
  · intro p
    rw [children_modifyElement]
    exact h.nodup p
  · intro p x hx
    rw [parent_modifyElement] at hx
    rw [nodeType_modifyElement]
    exact h.container hx
  · intro p x hx
    rw [parent_modifyElement] at hx
    rw [nodeType_modifyElement]
    exact h.rooted hx
  · intro d hd
    rw [nodeType_modifyElement] at hd
    rw [children_modifyElement]
    have hmap : ∀ l : List NodeId, l.map (t.modifyElement n f).nodeType = l.map t.nodeType :=
      fun l => List.map_congr_left fun x _ => nodeType_modifyElement t n f x
    rw [hmap]
    exact h.document hd
  · intro m e he
    rw [element?_modifyElement] at he
    split at he
    · next hm =>
      subst hm
      obtain ⟨e₀, he₀, rfl⟩ := Option.map_eq_some_iff.1 he
      exact (hf e₀ he₀).1
    · exact h.attr_keys he
  · intro m e a he
    rw [element?_modifyElement] at he
    split at he
    · next hm =>
      subst hm
      obtain ⟨e₀, he₀, rfl⟩ := Option.map_eq_some_iff.1 he
      exact (hf e₀ he₀).2 a
    · exact h.plain_attrs he

end WellFormed

end Tree

end Markup
