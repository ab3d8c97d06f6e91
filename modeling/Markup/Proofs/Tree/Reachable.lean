import Markup.Proofs.Tree.Clone

/-!
# Every reachable tree is well formed

A tree is reachable when some run of its operations makes it from the empty tree: making
nodes, the three insertions, cloning, and setting attributes, each of which may fail and then
leaves the tree as it was. Insertions name a parent that exists; on any other the original
program stops with an index error rather than returning.

Each operation keeps `WellFormed`, so by induction on the run every reachable tree has it.
From the invariant follow the facts a reader of the tree relies on: the sibling links walk
each child list in order and back, every node sits in its parent's list, parents never loop,
only containers hold children, a document holds at most one element and no text, and no
element carries two attributes with one namespace and local name. On such trees the three
insertions do what the DOM says, as `Insertion` proves.
-/

namespace Markup.Tree

open Relation

variable {t t' : Tree}

/-! ## Attributes -/

section updateFirst

variable {α β : Type} {q : α → Bool} {f : α → α}

theorem map_updateFirst {g : α → β} (hg : ∀ a, g (f a) = g a) (l : List α) :
    (updateFirst q f l).map g = l.map g := by
  induction l with
  | nil => rfl
  | cons a l ih =>
    simp only [updateFirst]
    split <;> simp [hg, ih]

theorem mem_updateFirst {l : List α} (hx : x ∈ updateFirst q f l) :
    x ∈ l ∨ ∃ a ∈ l, q a = true ∧ x = f a := by
  induction l with
  | nil => cases hx
  | cons a l ih =>
    simp only [updateFirst] at hx
    split at hx
    · next ha =>
      rcases List.mem_cons.1 hx with rfl | hx
      · exact .inr ⟨a, List.mem_cons_self, ha, rfl⟩
      · exact .inl (List.mem_cons_of_mem _ hx)
    · rcases List.mem_cons.1 hx with rfl | hx
      · exact .inl List.mem_cons_self
      · rcases ih hx with hx | ⟨b, hb, hqb, rfl⟩
        · exact .inl (List.mem_cons_of_mem _ hx)
        · exact .inr ⟨b, List.mem_cons_of_mem _ hb, hqb, rfl⟩

end updateFirst

/-- Adding an attribute whose key no attribute has keeps the keys distinct. -/
theorem nodup_keys_append {as : List Attr} (hkeys : (as.map Attr.key).Nodup) {a : Attr}
    (hnew : ∀ b ∈ as, b.key ≠ a.key) : ((as ++ [a]).map Attr.key).Nodup := by
  rw [List.map_append, List.nodup_append]
  refine ⟨hkeys, List.nodup_singleton _, fun k hk k' hk' hkk => ?_⟩
  obtain ⟨b, hb, rfl⟩ := List.mem_map.1 hk
  rw [List.map_singleton, List.mem_singleton] at hk'
  exact hnew b hb (hkk.trans hk')

/-- Setting an attribute by name keeps the tree well formed: the record it adds has no
prefix and no namespace, and no such record had its name. -/
theorem WellFormed.setAttribute (h : t.WellFormed) (he : t.setAttribute el name value = .ok t') :
    t'.WellFormed := by
  unfold Tree.setAttribute at he
  split at he
  · cases he
  · split at he
    · cases he
    · next e hel =>
      cases he
      refine h.modifyElement el _ fun e' he' => ?_
      rw [hel] at he'
      cases he'
      have hplain : ∀ a ∈ e.attrs, a.ns = none → a.prefixName = none := fun _ ha =>
        h.plain_attrs hel ha
      dsimp only
      split
      · refine ⟨?_, fun a ha hns => ?_⟩
        · rw [map_updateFirst (g := Attr.key)]
          · exact h.attr_keys hel
          · intro _
            rfl
        rcases mem_updateFirst ha with ha | ⟨b, hb, -, rfl⟩
        · exact hplain a ha hns
        · exact hplain b hb hns
      · next hany =>
        refine ⟨nodup_keys_append (h.attr_keys hel) fun b hb hkey => ?_, fun a ha hns => ?_⟩
        · -- a plain record with that local name would have had that name
          simp only [Attr.key, Prod.mk.injEq] at hkey
          have hpre := hplain b hb hkey.1
          exact hany (List.any_eq_true.2 ⟨b, hb, by simp [Attr.name, hpre, hkey.2]⟩)
        · rcases List.mem_append.1 ha with ha | ha
          · exact hplain a ha hns
          · rw [List.mem_singleton] at ha
            rw [ha]

/-- Setting an attribute in a namespace keeps the tree well formed: every record it touches
or adds has a namespace, and none had its key before. -/
theorem WellFormed.setAttributeNs (h : t.WellFormed)
    (he : t.setAttributeNs el ns qualified value = .ok t') : t'.WellFormed := by
  unfold Tree.setAttributeNs at he
  split at he
  · cases he
  · next q _ =>
    split at he
    · cases he
    · next e hel =>
      cases he
      refine h.modifyElement el _ fun e' he' => ?_
      rw [hel] at he'
      cases he'
      have hplain : ∀ a ∈ e.attrs, a.ns = none → a.prefixName = none := fun _ ha =>
        h.plain_attrs hel ha
      dsimp only
      split
      · refine ⟨?_, fun a ha hns => ?_⟩
        · rw [map_updateFirst (g := Attr.key)]
          · exact h.attr_keys hel
          · intro _
            rfl
        rcases mem_updateFirst ha with ha | ⟨b, -, hsame, rfl⟩
        · exact hplain a ha hns
        · -- the record it changes is in the namespace
          simp only [Bool.and_eq_true, beq_iff_eq] at hsame
          simp [hsame.1] at hns
      · next hany =>
        refine ⟨nodup_keys_append (h.attr_keys hel) fun b hb hkey => ?_, fun a ha hns => ?_⟩
        · simp only [Attr.key, Prod.mk.injEq] at hkey
          exact hany (List.any_eq_true.2 ⟨b, hb, by simp [hkey.1, hkey.2]⟩)
        · rcases List.mem_append.1 ha with ha | ha
          · exact hplain a ha hns
          · rw [List.mem_singleton] at ha
            rw [ha] at hns
            cases hns

/-! ## Runs of operations -/

/-- The operations of a tree, with their arguments. -/
inductive Op where
  | createDocument
  | createFragment (doc : NodeId)
  | createElement (doc : NodeId) (name : String)
  | createElementNs (doc : NodeId) (ns qualified : String)
  | createText (doc : NodeId) (data : String)
  | createComment (doc : NodeId) (data : String)
  | createCData (doc : NodeId) (data : String)
  | createInstruction (doc : NodeId) (target data : String)
  | appendChild (p c : NodeId)
  | insertBefore (p c : NodeId) (ref : Option NodeId)
  | replaceChild (p new old : NodeId)
  | cloneNode (n : NodeId) (deep : Bool)
  | setAttribute (el : NodeId) (name value : String)
  | setAttributeNs (el : NodeId) (ns qualified value : String)

/-- The tree after an edit that may fail: a failed edit leaves the tree as it was. -/
def settle (t : Tree) : Except TreeError Tree → Tree
  | .ok t' => t'
  | .error _ => t

/-- A property holds after an edit that may fail when it holds before and of every result. -/
theorem settle_of {P : Tree → Prop} (h : P t) {r : Except TreeError Tree}
    (hr : ∀ t', r = .ok t' → P t') : P (t.settle r) := by
  cases r with
  | error => exact h
  | ok t' => exact hr t' rfl

/-- The same for an edit that makes a node, read for the tree it leaves. -/
theorem settle_map_of {P : Tree → Prop} (h : P t) {x : Except TreeError (Tree × NodeId)}
    (hx : ∀ r, x = .ok r → P r.1) : P (t.settle (x.map Prod.fst)) := by
  refine settle_of h fun t' he => ?_
  cases x with
  | error => cases he
  | ok r =>
    cases he
    exact hx r rfl

namespace Op

/-- The tree after an operation. -/
def apply (t : Tree) : Op → Tree
  | createDocument => t.createDocument.1
  | createFragment doc => (t.createFragment doc).1
  | createElement doc name => t.settle ((t.createElement doc name).map Prod.fst)
  | createElementNs doc ns qualified => t.settle ((t.createElementNs doc ns qualified).map Prod.fst)
  | createText doc data => (t.createText doc data).1
  | createComment doc data => (t.createComment doc data).1
  | createCData doc data => t.settle ((t.createCData doc data).map Prod.fst)
  | createInstruction doc target data =>
    t.settle ((t.createInstruction doc target data).map Prod.fst)
  | appendChild p c => t.settle (t.appendChild p c)
  | insertBefore p c ref => t.settle (t.insertBefore p c ref)
  | replaceChild p new old => t.settle (t.replaceChild p new old)
  | cloneNode n deep => (t.cloneNode n deep).1
  | setAttribute el name value => t.settle (t.setAttribute el name value)
  | setAttributeNs el ns qualified value => t.settle (t.setAttributeNs el ns qualified value)

/-- An operation runs to its end unless it is an insertion under a node past the last one. -/
def Valid (t : Tree) : Op → Prop
  | appendChild p _ | insertBefore p _ _ | replaceChild p _ _ => p < t.size
  | _ => True

end Op

instance (t : Tree) (op : Op) : Decidable (op.Valid t) := by
  cases op <;> unfold Op.Valid <;> infer_instance

/-- The trees that runs of operations make from the empty tree. -/
inductive Reachable : Tree → Prop
  | empty : Reachable Tree.empty
  | step {t : Tree} (op : Op) : Reachable t → op.Valid t → Reachable (op.apply t)

/-! ## Each operation keeps the shape -/

theorem WellFormed.empty : Tree.empty.WellFormed := by
  have hz : ∀ n, Tree.empty.size ≤ n := fun n => Nat.zero_le n
  refine ⟨fun {p c} => ?_, fun p => ?_, ⟨fun x => .intro x fun y hy => ?_⟩, fun {p c} hc => ?_,
    fun {p c} hc => ?_, fun {d} _ => ?_, fun {n e} he => ?_, fun {n e a} he => ?_⟩
  all_goals simp_all [ParentOf, children_of_size_le, parent_of_size_le, element?,
    get_of_size_le, Node.placeholder, NodeType.DocumentAllows]

/-- A node made with no attributes keeps the tree well formed. -/
theorem WellFormed.make (h : t.WellFormed) {x : Except TreeError (Tree × NodeId)}
    (hx : ∀ r, x = .ok r → ∃ c o, (∀ e, c = .element e → e.attrs = []) ∧ r = t.alloc c o) :
    (t.settle (x.map Prod.fst)).WellFormed := by
  refine settle_map_of h fun r hr => ?_
  obtain ⟨c, o, hc, rfl⟩ := hx r hr
  exact h.alloc c o fun e he => by simp [hc e he]

theorem WellFormed.apply (h : t.WellFormed) {op : Op} (hv : op.Valid t) :
    (op.apply t).WellFormed := by
  cases op with
  | createDocument => exact h.alloc _ _ fun _ he => by cases he
  | createFragment => exact h.alloc _ _ fun _ he => by cases he
  | createText => exact h.alloc _ _ fun _ he => by cases he
  | createComment => exact h.alloc _ _ fun _ he => by cases he
  | createElement doc name =>
    refine h.make fun r hr => ?_
    unfold Tree.createElement at hr
    split at hr
    · cases hr
      exact ⟨_, _, fun e he => by cases he; rfl, rfl⟩
    · cases hr
  | createElementNs doc ns qualified =>
    refine h.make fun r hr => ?_
    unfold Tree.createElementNs at hr
    split at hr
    · cases hr
      exact ⟨_, _, fun e he => by cases he; rfl, rfl⟩
    · cases hr
  | createCData doc data =>
    refine h.make fun r hr => ?_
    unfold Tree.createCData at hr
    split at hr
    · cases hr
    · cases hr
      exact ⟨_, _, fun e he => (by cases he), rfl⟩
  | createInstruction doc target data =>
    refine h.make fun r hr => ?_
    unfold Tree.createInstruction at hr
    split at hr
    · cases hr
    · split at hr
      · cases hr
      · cases hr
        exact ⟨_, _, fun e he => (by cases he), rfl⟩
  | appendChild p c => exact settle_of h fun _ he => h.appendChild hv he
  | insertBefore p c ref => exact settle_of h fun _ he => h.insertBefore hv he
  | replaceChild p new old => exact settle_of h fun _ he => h.replaceChild hv he
  | cloneNode n deep => exact h.cloneNode n deep
  | setAttribute el name value => exact settle_of h fun _ he => h.setAttribute he
  | setAttributeNs el ns qualified value => exact settle_of h fun _ he => h.setAttributeNs he

/-- The invariant holds along every run. -/
theorem Reachable.wellFormed (hr : t.Reachable) : t.WellFormed := by
  induction hr with
  | empty => exact WellFormed.empty
  | step op _ hv ih => exact ih.apply hv

/-! ## The shape a reader relies on -/

/-- A well-formed forest, in terms of the links a reader follows: the sibling links of a
node's children run through its child list from the first child to the last, and back. -/
structure Forest (t : Tree) : Prop where
  nodup : ∀ p, (t.children p).Nodup
  parent_of_mem : ∀ {p x}, x ∈ t.children p → t.parent x = some p
  mem_of_parent : ∀ {p x}, t.parent x = some p → x ∈ t.children p
  firstChild_eq : ∀ p, t.firstChild p = (t.children p).head?
  lastChild_eq : ∀ p, t.lastChild p = (t.children p).getLast?
  next : ∀ p i (hi : i + 1 < (t.children p).length),
    t.nextSibling (t.children p)[i] = some (t.children p)[i + 1]
  next_last : ∀ {p x}, (t.children p).getLast? = some x → t.nextSibling x = none
  prev : ∀ p i (hi : i + 1 < (t.children p).length),
    t.prevSibling (t.children p)[i + 1] = some (t.children p)[i]
  prev_first : ∀ {p x}, (t.children p).head? = some x → t.prevSibling x = none
  first_last : ∀ p, t.firstChild p = none ↔ t.lastChild p = none
  acyclic : ∀ n, ¬ TransGen t.ParentOf n n
  container : ∀ {p x}, x ∈ t.children p → (t.nodeType p).isContainer
  rooted : ∀ {x}, t.nodeType x = .document ∨ t.nodeType x = .fragment → t.parent x = none
  document : ∀ {d}, t.nodeType d = .document →
    (∀ x ∈ t.children d, t.nodeType x ≠ .text ∧ t.nodeType x ≠ .cdata) ∧
      ((t.children d).map t.nodeType).count .element ≤ 1
  attr_keys : ∀ {n e}, t.element? n = some e → (e.attrs.map Attr.key).Nodup

theorem split_getElem (L : List NodeId) {i : Nat} (hi : i < L.length) :
    L = L.take i ++ L[i] :: L.drop (i + 1) := by
  conv_lhs => rw [← List.take_append_drop i L, List.drop_eq_getElem_cons hi]

namespace WellFormed

variable {p x : NodeId} {i : Nat}

theorem nextSibling_getElem (h : t.WellFormed) (hi : i + 1 < (t.children p).length) :
    t.nextSibling (t.children p)[i] = some (t.children p)[i + 1] := by
  have hx : t.parent (t.children p)[i] = some p := h.mem_children.1 (List.getElem_mem _)
  rw [nextSibling_eq h hx (split_getElem _ (by omega)), List.head?_drop,
    List.getElem?_eq_getElem hi]

theorem prevSibling_getElem (h : t.WellFormed) (hi : i + 1 < (t.children p).length) :
    t.prevSibling (t.children p)[i + 1] = some (t.children p)[i] := by
  have hx : t.parent (t.children p)[i + 1] = some p := h.mem_children.1 (List.getElem_mem _)
  rw [prevSibling_eq h hx (split_getElem _ hi), List.getLast?_take]
  simp [List.getElem?_eq_getElem (Nat.lt_of_succ_lt hi)]

theorem nextSibling_last (h : t.WellFormed) (hx : (t.children p).getLast? = some x) :
    t.nextSibling x = none := by
  obtain ⟨A, hA⟩ := List.getLast?_eq_some_iff.1 hx
  rw [nextSibling_eq h (h.mem_children.1 (by simp [hA])) hA]
  rfl

theorem prevSibling_first (h : t.WellFormed) (hx : (t.children p).head? = some x) :
    t.prevSibling x = none := by
  obtain ⟨B, hB⟩ := List.head?_eq_some_iff.1 hx
  rw [prevSibling_eq h (h.mem_children.1 (by simp [hB])) (A := []) hB]
  rfl

theorem toForest (h : t.WellFormed) : t.Forest where
  nodup := h.nodup
  parent_of_mem hx := h.mem_children.1 hx
  mem_of_parent hx := h.mem_children.2 hx
  firstChild_eq _ := rfl
  lastChild_eq _ := rfl
  next _ _ hi := h.nextSibling_getElem hi
  next_last hx := h.nextSibling_last hx
  prev _ _ hi := h.prevSibling_getElem hi
  prev_first hx := h.prevSibling_first hx
  first_last p := by simp [firstChild, lastChild]
  acyclic := h.not_transGen_self
  container hx := h.container (h.mem_children.1 hx)
  rooted {x} hx := by
    cases hp : t.parent x with
    | none => rfl
    | some p =>
      have := h.rooted hp
      rcases hx with hx | hx <;> simp_all
  document hd := ⟨fun _ hx => (h.document hd).1 _ (List.mem_map_of_mem hx), (h.document hd).2⟩
  attr_keys he := h.attr_keys he

end WellFormed

/-! ## Reachable trees -/

/-- Every tree that a run of operations makes is a well-formed forest. -/
theorem Reachable.forest (hr : t.Reachable) : t.Forest :=
  hr.wellFormed.toForest

/-- On every reachable tree, the three insertions under an existing node fail exactly when
the DOM's pre-insertion check does, and otherwise change the child lists as the DOM says. -/
theorem Reachable.insertions_refine (hr : t.Reachable) (hp : p < t.size) (c : NodeId) :
    t.InsertionRefines p c :=
  hr.wellFormed.insertionRefines hp c

end Markup.Tree
