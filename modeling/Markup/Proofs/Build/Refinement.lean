import Markup.Proofs.Build.Placement

/-!
# The steps of a build, refined

Each node a build makes, read against what it denotes (`BuildM.Refines`): a leaf put in place
(`refines_attach_leaf`, `refines_buildReserved`), a deep copy with the shapes of what it copies
(`refines_clone`), an element with the record `elementOf` gives (`refines_materialize`) and then
its children built inside it (`refines_element`), and a batch built into a fragment whose
children move in one step (`refines_batch`).

Node handles are read in the tree `T` the build started from. What keeps their copies right
while the build goes on is `Position.Copies`: a handle is a node that is not the host `H` or
above it, so nothing the build does reaches its subtree.
-/

namespace Markup

open Relation Markup.Tree BuildM

/-! ## Node handles -/

namespace Spec

/-- Every node handle a build of `s` can reach satisfies `P`. -/
def Handles (args : List Spec) (P : NodeId → Prop) (s : Spec) : Prop :=
  ∀ n, ReflTransGen (Step args) s (.node n) → P n

namespace Handles

variable {args : List Spec} {P P' : NodeId → Prop} {s s' : Spec}

theorem step (h : s.Handles args P) (hs : Step args s s') : s'.Handles args P :=
  fun n hr => h n (.head hs hr)

theorem mono (h : s.Handles args P) (hP : ∀ n, P n → P' n) : s.Handles args P' :=
  fun n hr => hP n (h n hr)

theorem node {n : NodeId} (h : (Spec.node n).Handles args P) : P n :=
  h n .refl

/-- A node handle reaches no spec but itself. -/
theorem of_node {n : NodeId} (h : P n) : (Spec.node n).Handles args P := by
  intro m hr
  rcases ReflTransGen.cases_head hr with heq | ⟨x, hstep, -⟩
  · cases heq
    exact h
  · cases hstep

/-- Some of the items of a list, built as a list. -/
theorem sublist {items L : List Spec} (h : (Spec.list items).Handles args P)
    (hL : ∀ x ∈ L, x ∈ items) : (Spec.list L).Handles args P := by
  intro n hr
  rcases ReflTransGen.cases_head hr with heq | ⟨x, hstep, hx⟩
  · cases heq
  · cases hstep with
    | item hmem => exact h n (.head (.item (hL x hmem)) hx)

/-- Some of the children of an entry's value, built as a list. -/
theorem children {entries : List (String × Spec)} (h : (Spec.mapping entries).Handles args P)
    {k : String} {v : Spec} (hv : (k, v) ∈ entries) {L : List Spec} (hL : ∀ x ∈ L, x ∈ v.children) :
    (Spec.list L).Handles args P := by
  have hval := h.step (.value hv)
  cases v with
  | list items => exact hval.sublist hL
  | _ =>
    intro n hr
    rcases ReflTransGen.cases_head hr with heq | ⟨x, hstep, hx⟩
    · cases heq
    · cases hstep with
      | item hmem =>
        rw [List.mem_singleton.1 (hL x hmem)] at hx
        exact hval n hx

end Handles

end Spec

/-! ## Handles a build copies as they were -/

/-- A node handle that a build at `pos` into `H` copies from `t` as it was in `T`: a node of `t`
that is not `H` or above it, whose copy puts in place what it did in `T`, and which, when the
build replaces the reference, is no empty fragment. -/
structure Position.Copies (pos : Position) (T t : Tree) (H n : NodeId) : Prop where
  lt_size : n < t.size
  not_above : ¬ ReflTransGen t.ParentOf n H
  copied : t.copied n = T.copied n
  filled : pos.mode = .replace → t.nodeType n = .fragment → t.children n ≠ []

namespace Position.Copies

variable {pos : Position} {T t t' : Tree} {H n : NodeId} {o : Option (List NodeId)}

/-- A handle stays one while the build goes on at the same position. -/
theorem of_leaves (h : pos.Copies T t H n) (hl : pos.Leaves t t' o) (ht : t.WellFormed)
    (hin : pos.Into t H) : pos.Copies T t' H n where
  lt_size := lt_of_lt_of_le h.lt_size hl.size_le
  not_above ha := h.not_above (hl.above_host ht hin.hostIn hin.lt_size ha)
  copied := (copied_of_leaves hl ht hin.hostIn h.lt_size h.not_above).trans h.copied
  filled hm := by
    have hkids : t'.children n = t.children n :=
      hl.children h.lt_size (.inr fun hn => h.not_above (hin.hostIn.unique hn ▸ .refl))
    rw [hl.nodeType h.lt_size, hkids]
    exact h.filled hm

/-- A handle is one for a build inside a new node that has no parent or is a child of `H`. -/
theorem inside (h : pos.Copies T t H n) (hl : pos.Leaves t t' o) (ht : t.WellFormed)
    (hin : pos.Into t H) {el doc : NodeId} (hel : t.size ≤ el)
    (hpar : t'.parent el = none ∨ t'.parent el = some H) :
    (Position.inside el doc).Copies T t' el n where
  lt_size := lt_of_lt_of_le h.lt_size hl.size_le
  not_above ha := by
    rcases ha.cases_tail with rfl | ⟨p, hnp, hp⟩
    · exact Nat.lt_irrefl _ (lt_of_lt_of_le h.lt_size hel)
    · -- the parent of the new node is `H`, which the handle is not above
      have hp : t'.parent el = some p := hp
      rcases hpar with hpar | hpar
      · rw [hpar] at hp
        cases hp
      · obtain rfl : p = H := Option.some.inj (hp.symm.trans hpar)
        exact h.not_above (hl.above_host ht hin.hostIn hin.lt_size hnp)
  copied := (copied_of_leaves hl ht hin.hostIn h.lt_size h.not_above).trans h.copied
  filled hm := by cases hm

end Position.Copies

/-! ## New nodes put in place -/

section Steps

variable {pos : Position} {T t : Tree} {H : NodeId}

theorem Content.IsLeaf.type_ne_document {c : Content} (hc : c.IsLeaf) : c.type ≠ .document := by
  cases c <;> first | exact (hc : False).elim | exact fun h => by cases h

/-- Attaching a new node that is no empty fragment, unless the build does not replace: what
lands is what a copy of the node denotes. -/
theorem Position.Into.refines_attach_puts {t₁ : Tree} {n : NodeId} (hin : pos.Into t H)
    (h₁ : pos.Leaves t t₁ none) (ht : t.WellFormed) (hn : t.size ≤ n) (hnp : t₁.parent n = none)
    (hfill : pos.mode = .replace → t₁.nodeType n = .fragment → t₁.children n ≠ []) :
    Refines (pos.mode.attach n pos.reference) t₁ (t₁.copied n) (fun _ L t' => pos.Puts t t' L) := by
  -- only an empty fragment hands over no node
  have hins : pos.mode ≠ .replace ∨ t₁.incoming n ≠ [] := by
    by_cases hm : pos.mode = .replace
    · refine .inr ?_
      unfold incoming
      split
      · exact hfill hm ‹_›
      · exact List.cons_ne_nil _ _
    · exact .inl hm
  refine (hin.refines_attach h₁ ht hn hnp).mono fun _ L t' h => ?_
  obtain ⟨hl, hL⟩ := h
  exact hL ▸ Position.Puts.of_leaves hins hl

/-- A new leaf put in place. -/
theorem Position.Into.refines_attach_leaf (hin : pos.Into t H) (ht : t.WellFormed) {c : Content}
    (hc : c.IsLeaf) (o : Option NodeId) :
    Refines (pos.mode.attach t.size pos.reference) (t.alloc c o).1 (.ok [.node c []])
      (fun _ L t' => pos.Puts t t' L) := by
  have hwf : (t.alloc c o).1.WellFormed := ht.alloc c o fun e he => absurd he (hc.type_ne.2 e)
  have h₁ : pos.Leaves t (t.alloc c o).1 none :=
    Position.Leaves.of_get hwf (by simp) fun _ hx => get_alloc_of_lt c o hx
  have htype : (t.alloc c o).1.nodeType t.size = c.type := by rw [nodeType_alloc, if_pos rfl]
  have hcopied : (t.alloc c o).1.copied t.size = .ok [.node c []] := by
    rw [copied, htype, if_neg hc.type_ne_document, incoming_of_nodeType_ne (htype ▸ hc.type_ne.1),
      List.map_singleton, shape_eq hwf, content_alloc, if_pos rfl, children_alloc, if_pos rfl]
    rfl
  refine (hin.refines_attach_puts h₁ ht le_rfl (by rw [parent_alloc, if_pos rfl])
    fun _ hfr => absurd (htype ▸ hfr) hc.type_ne.1).congr hcopied

theorem Position.Into.refines_buildText (hin : pos.Into t H) (ht : t.WellFormed) (text : String) :
    Refines (buildText pos text) t (.ok [.node (.text text) []]) (fun _ L t' => pos.Puts t t' L) :=
  Refines.of_eq (bind_apply_of_eq_ok rfl)
    (hin.refines_attach_leaf ht (show Content.IsLeaf (.text text) from trivial) _)

/-- A deep copy of a node put in place, with the shapes of what it copies. -/
theorem Position.Into.refines_clone (hin : pos.Into t H) (ht : t.WellFormed) {n : NodeId}
    (hfill : pos.mode = .replace → t.nodeType n = .fragment → t.children n ≠ []) :
    Refines (alloc (·.cloneNode n true) >>= fun copy => pos.mode.attach copy pos.reference) t
      (t.copied n) (fun _ L t' => pos.Puts t t' L) := by
  have hd := ht.deepCopy_cloneNode n
  obtain ⟨σ, hσn, hσ⟩ := hd.copies
  have hwf := ht.cloneNode n true
  have hsize : t.size < (t.cloneNode n true).1.size := by
    have h := ((hd.below_copy _).1 .refl).2
    rwa [hd.copy_eq] at h
  have h₁ : pos.Leaves t (t.cloneNode n true).1 none :=
    Position.Leaves.of_get hwf hsize.le fun _ hx => hd.get_old hx
  have htype : (t.cloneNode n true).1.nodeType t.size = t.nodeType n := by
    rw [← hd.copy_eq, ← hσn]
    simp only [Tree.nodeType, hσ.content .refl]
  have hkids : (t.cloneNode n true).1.children t.size = (t.children n).map σ := by
    rw [← hd.copy_eq, ← hσn]
    exact hσ.children .refl
  have hcopied : (t.cloneNode n true).1.copied t.size = t.copied n := by
    have hshapes := hd.incoming_shapes ht hwf
    rw [hd.copy_eq] at hshapes
    rw [copied, copied, htype, hshapes]
  have halloc : alloc (·.cloneNode n true) t = .ok t.size (t.cloneNode n true).1 := by
    rw [← hd.copy_eq]
    rfl
  refine Refines.of_eq (bind_apply_of_eq_ok halloc) ?_
  refine (hin.refines_attach_puts h₁ ht le_rfl (hd.copy_eq ▸ hd.parent_copy)
    fun hm hfr => ?_).congr hcopied
  rw [hkids, Ne, List.map_eq_nil_iff]
  exact hfill hm (htype ▸ hfr)

end Steps

/-! ## Comments, CDATA sections and instructions -/

section Reserved

variable {pos : Position} {t : Tree} {H : NodeId}

theorem BuildM.make_of_eq_ok {f : Tree → Except TreeError (Tree × NodeId)} {r : Tree × NodeId}
    (h : f t = .ok r) : make f t = .ok r.2 r.1 := by
  simp [make, h]

theorem BuildM.make_of_eq_error {f : Tree → Except TreeError (Tree × NodeId)} {e : TreeError}
    (h : f t = .error e) : make f t = .error (.tree e) t := by
  simp [make, h]

/-- Making a leaf the tree may refuse, then attaching it: the refusal is the build's error. -/
theorem Position.Into.refines_make_leaf (hin : pos.Into t H) (ht : t.WellFormed)
    {f : Tree → Except TreeError (Tree × NodeId)} {r : Except TreeError Content}
    (hf : f t = r.map fun c => t.alloc c (some pos.doc)) (hleaf : ∀ c, r = .ok c → c.IsLeaf) :
    Refines (make f >>= fun n => pos.mode.attach n pos.reference) t
      (r.mapError .tree >>= fun c => pure [.node c []]) (fun _ L t' => pos.Puts t t' L) := by
  cases r with
  | error e => exact refines_of_eq_error (BuildM.bind_apply_of_eq_error (BuildM.make_of_eq_error hf))
  | ok c =>
    exact Refines.of_eq (bind_apply_of_eq_ok (BuildM.make_of_eq_ok hf))
      (hin.refines_attach_leaf ht (hleaf c rfl) _)

/-- A comment, CDATA section or instruction is a leaf put in place, with the content
`reservedContent` gives it; the build fails where that is an error. -/
theorem Position.Into.refines_buildReserved (hin : pos.Into t H) (ht : t.WellFormed)
    (kind : Reserved) (children : List Spec) (attrs : List (String × Spec)) (args : List Spec) :
    Refines (buildReserved pos kind children attrs args) t
      (reservedContent kind children attrs args >>= fun c => pure [.node c []])
      (fun _ L t' => pos.Puts t t' L) := by
  unfold buildReserved
  cases kind with
  | comment =>
    exact Refines.of_eq (bind_apply_of_eq_ok rfl)
      (hin.refines_attach_leaf ht (show Content.IsLeaf (.comment _) from trivial) _)
  | cdata =>
    set data := Spec.flattenItems children args
    refine (hin.refines_make_leaf ht (r := if containsText data "]]>" then
      .error (.invalidCharacter data) else .ok (.cdata data)) ?_ ?_).congr ?_
    · simp only [createCData]
      split <;> rfl
    · intro c hc
      split at hc <;> cases hc
      trivial
    · simp only [reservedContent]
      split <;> rfl
  | instruction =>
    unfold reservedContent
    cases children with
    | nil => exact refines_of_eq_error rfl
    | cons first rest =>
      dsimp only
      cases (Spec.flatten first args).filter (!·.isEmpty) with
      | none => exact refines_of_eq_error rfl
      | some target =>
        dsimp only
        set data := Text.trim (Spec.flattenEntries attrs args "=" ++ " " ++
          Spec.flattenItems rest args)
        refine (hin.refines_make_leaf ht (r := if !Name.isQName target then
          .error (.invalidCharacter target) else if containsText data "?>" then
          .error (.invalidCharacter data) else .ok (.instruction target data)) ?_ ?_).congr ?_
        · simp only [createInstruction]
          split
          · rfl
          · split <;> rfl
        · intro c hc
          split at hc
          · cases hc
          · split at hc <;> cases hc
            trivial
        · split
          · rfl
          · split <;> rfl
  | doctype => exact refines_of_eq_error rfl

end Reserved

/-! ## Elements -/

theorem BuildM.refines_edit_ok {β : Type} {f : Tree → Except TreeError Tree} {t t' : Tree} {b : β}
    {Q : Unit → β → Tree → Prop} (h : f t = .ok t') (hq : Q () b t') :
    Refines (edit f) t (.ok b) Q :=
  Refines.of_eq (show edit f t = (pure () : BuildM Unit) t' by simp [edit, h]; rfl)
    (refines_pure () b hq)

namespace FreshElement

variable {t t₁ : Tree} {el : NodeId} {e : Element}

/-- Setting an attribute by qualified name on the new element. -/
theorem setAttribute (h : FreshElement t t₁ el) (he : t₁.element? el = some e) {name : String}
    (hq : Name.isQName name = true) (value : String) :
    ∃ t₂, t₁.setAttribute el name value = .ok t₂ ∧ FreshElement t t₂ el ∧
      t₂.element? el = some (e.withAttribute name value) := by
  have hset : t₁.setAttribute el name value =
      .ok (t₁.modifyElement el fun e' => { e' with attrs := (e.withAttribute name value).attrs }) := by
    simp [Tree.setAttribute, hq, he, Element.withAttribute]
  refine ⟨_, hset, h.modifyElement (h.wf.setAttribute hset), ?_⟩
  rw [element?_modifyElement, if_pos rfl, he]
  rfl

/-- Setting an attribute in a namespace on the new element. -/
theorem setAttributeNs (h : FreshElement t t₁ el) (he : t₁.element? el = some e)
    {ns qualified : String} {q : QName} (hq : QName.parse? qualified = some q) (value : String) :
    ∃ t₂, t₁.setAttributeNs el ns qualified value = .ok t₂ ∧ FreshElement t t₂ el ∧
      t₂.element? el = some (e.withAttributeNs ns q value) := by
  have hset : t₁.setAttributeNs el ns qualified value =
      .ok (t₁.modifyElement el fun e' => { e' with attrs := (e.withAttributeNs ns q value).attrs }) := by
    simp [Tree.setAttributeNs, hq, he, Element.withAttributeNs]
  refine ⟨_, hset, h.modifyElement (h.wf.setAttributeNs hset), ?_⟩
  rw [element?_modifyElement, if_pos rfl, he]
  rfl

/-- Setting one attribute entry gives the new element the record `Element.withEntry` gives. -/
theorem refines_setAttrEntry (h : FreshElement t t₁ el) (he : t₁.element? el = some e)
    (scope : Scope) (args : List Spec) (policy : Policy) (entry : String × Spec) :
    Refines (setAttrEntry el scope args policy entry) t₁ (e.withEntry scope args policy entry)
      (fun _ e' t₂ => FreshElement t t₂ el ∧ t₂.element? el = some e') := by
  have hset : ∀ {name : String}, Name.isQName name = true → ∀ value,
      Refines (edit (·.setAttribute el name value)) t₁ (.ok (e.withAttribute name value))
        (fun _ e' t₂ => FreshElement t t₂ el ∧ t₂.element? el = some e') := fun hq value => by
    obtain ⟨t₂, hset, h₂, he₂⟩ := h.setAttribute he hq value
    exact refines_edit_ok hset ⟨h₂, he₂⟩
  have hsetNs : ∀ {ns qualified : String} {q : QName}, QName.parse? qualified = some q → ∀ value,
      Refines (edit (·.setAttributeNs el ns qualified value)) t₁ (.ok (e.withAttributeNs ns q value))
        (fun _ e' t₂ => FreshElement t t₂ el ∧ t₂.element? el = some e') := fun hq value => by
    obtain ⟨t₂, hset, h₂, he₂⟩ := h.setAttributeNs he hq value
    exact refines_edit_ok hset ⟨h₂, he₂⟩
  obtain ⟨key, value⟩ := entry
  unfold setAttrEntry Element.withEntry
  dsimp only
  cases hq : QName.parse? key with
  | none => exact refines_pure () e ⟨h, he⟩
  | some q =>
    have hkey : Name.isQName key = true := by simp [Name.isQName, hq]
    cases Spec.flatten value args with
    | none => exact refines_pure () e ⟨h, he⟩
    | some text =>
      dsimp only
      split
      · exact hsetNs hq text
      · cases q.prefixName with
        | none => exact hset hkey text
        | some ap =>
          dsimp only
          cases scope.namespaceOf? ap with
          | some uri => exact hsetNs hq text
          | none =>
            dsimp only
            by_cases hs : (policy == .strict) = true
            · simp only [hs, if_true]
              exact refines_of_eq_error rfl
            · simp only [hs, if_false, Bool.false_eq_true]
              exact hset hkey text

/-- Setting the attribute entries one by one folds `Element.withEntry` over them. -/
theorem refines_forM (scope : Scope) (args : List Spec) (policy : Policy)
    (L : List (String × Spec)) (h : FreshElement t t₁ el) (he : t₁.element? el = some e) :
    Refines (L.forM (setAttrEntry el scope args policy)) t₁
      (L.foldlM (Element.withEntry scope args policy) e)
      (fun _ e' t₂ => FreshElement t t₂ el ∧ t₂.element? el = some e') := by
  induction L generalizing t₁ e with
  | nil => exact refines_pure () e ⟨h, he⟩
  | cons c L ih =>
    exact (h.refines_setAttrEntry he scope args policy c).bind fun _ _ _ h₂ => ih h₂.1 h₂.2

end FreshElement

section Element

variable {pos : Position} {t : Tree} {H : NodeId}

/-- Making an element: a new element with the record `elementOf` gives, and the scope for its
children, or the error `elementOf` gives. -/
theorem refines_materialize (ht : t.WellFormed) (doc : NodeId) (tag : TagName) (scope : Scope)
    (attrs : List (String × Spec)) (args : List Spec) (policy : Policy) :
    Refines (materialize doc tag scope attrs args policy) t (elementOf tag scope attrs args policy)
      (fun r b t₁ => r.2 = b.2 ∧ FreshElement t t₁ r.1 ∧ t₁.element? r.1 = some b.1) := by
  have hmake : ∀ {f : Tree → Except TreeError (Tree × NodeId)} {r : Except TreeError Element},
      f t = r.map (fun e => t.alloc (.element e) (some doc)) → (∀ e, r = .ok e → e.attrs = []) →
      Refines (make f) t (r.mapError .tree)
        (fun el e t₁ => FreshElement t t₁ el ∧ t₁.element? el = some e) := by
    intro f r hf hr
    cases r with
    | error err => exact refines_of_eq_error (BuildM.make_of_eq_error hf)
    | ok e =>
      refine Refines.of_eq (BuildM.make_of_eq_ok hf)
        (refines_pure _ e ⟨FreshElement.alloc ht e (hr e rfl) _, ?_⟩)
      simp [element?, content_alloc]
  have hfresh : ∀ {qualified : String} {o : Option String} (e : Element),
      Element.fresh qualified o = .ok e → e.attrs = [] := by
    intro qualified o e he
    unfold Element.fresh at he
    split at he
    · split at he <;> cases he
      rfl
    · split at he <;> cases he
      rfl
  have hfinish : ∀ (σ : Scope) el e t₂, FreshElement t t₂ el → t₂.element? el = some e →
      Refines ((Name.sortEntries attrs).forM (setAttrEntry el σ args policy) >>= fun _ =>
          pure (el, σ)) t₂
        ((Name.sortEntries attrs).foldlM (Element.withEntry σ args policy) e >>= fun e =>
          pure (e, σ))
        (fun r b t₁ => r.2 = b.2 ∧ FreshElement t t₁ r.1 ∧ t₁.element? r.1 = some b.1) :=
    fun σ el e t₂ h₂ he₂ => (FreshElement.refines_forM σ args policy _ h₂ he₂).bind
      fun _ e' t₃ h₃ => refines_pure _ (e', σ) ⟨rfl, h₃⟩
  unfold materialize elementOf
  refine (refines_check _).bind fun r b t₁ hr => ?_
  obtain ⟨rfl, rfl⟩ := hr
  obtain ⟨qualified, pfx⟩ := r
  dsimp only
  cases (scope.declare attrs args).1.namespaceOf? pfx with
  | some uri =>
    refine (hmake (r := Element.fresh qualified (some uri)) ?_ (hfresh ·)).bind
      fun el e t₂ h₂ => hfinish _ el e t₂ h₂.1 h₂.2
    simp only [createElementNs, Element.fresh]
    cases QName.parse? qualified <;> rfl
  | none =>
    dsimp only
    by_cases hs : (!pfx.isEmpty && policy == .strict) = true
    · simp only [hs, if_true]
      exact refines_of_eq_error rfl
    · simp only [hs, if_false, Bool.false_eq_true]
      refine (hmake (r := Element.fresh qualified none) ?_ (hfresh ·)).bind
        fun el e t₂ h₂ => hfinish _ el e t₂ h₂.1 h₂.2
      simp only [createElement, Element.fresh]
      by_cases hq : Name.isQName qualified = true <;> simp [hq, Except.map]

/-- Placing an element: the new element, alone and still empty, stands at the position with the
record `elementOf` gives. -/
theorem Position.Into.refines_placeElement (hin : pos.Into t H) (ht : t.WellFormed) (scope : Scope)
    (tag : TagName) (attrs : List (String × Spec)) (args : List Spec) (policy : Policy) :
    Refines (placeElement pos scope tag attrs args policy) t (elementOf tag scope attrs args policy)
      (fun r b t₂ => r.2.2 = b.2 ∧ pos.Leaves t t₂ (some [r.1]) ∧ t.size ≤ r.1 ∧
        (t₂.get r.1).content = .element b.1 ∧ t₂.children r.1 = []) := by
  unfold placeElement
  refine ((refines_materialize ht pos.doc tag scope attrs args policy).bind
    fun r b t₁ h₁ => ?_).congr (bind_pure _)
  obtain ⟨el, inner⟩ := r
  obtain ⟨hinner, hfresh, hel⟩ := h₁
  have hl₁ := hfresh.leaves pos
  have hkind : t₁.nodeType el ≠ .fragment ∧ t₁.nodeType el ≠ .document := by
    rw [hfresh.element]
    exact ⟨fun h => (by cases h), fun h => (by cases h)⟩
  -- attaching the element cannot fail: it is no document, and new
  obtain ⟨v, t₂, hv⟩ := (hin.of_leaves hl₁).attach_ok hfresh.wf hkind.2
    (hin.not_above_new hl₁ ht hfresh.fresh)
  refine Refines.of_eq (bind_apply_of_eq_ok hv) (refines_pure _ b ⟨hinner, ?_⟩)
  obtain ⟨hl, -, hcontent, hkids⟩ :=
    (hl₁.ends_attach ht hin.reference_lt hfresh.fresh hfresh.parent).ok hv
  rw [incoming_of_nodeType_ne hkind.1] at hl
  refine ⟨hl, hfresh.fresh, ?_, (hkids hkind.1).trans hfresh.children⟩
  rw [hcontent el]
  unfold element? at hel
  split at hel <;> cases hel
  assumption

/-- An element put in place, then its children built inside it: it stands alone at the position,
with its record and the shapes its children denote. -/
theorem Position.Into.refines_element (hin : pos.Into t H) (ht : t.WellFormed) {T : Tree}
    {policy : Policy} {args : List Spec} {fuel : Nat} {scope : Scope} {tag : TagName}
    {attrs : List (String × Spec)} {children : List Spec}
    (hh : (Spec.list children).Handles args (pos.Copies T t H))
    (ih : ∀ el inner c cs, children = c :: cs → ∀ t₁ : Tree, t₁.WellFormed →
      (Position.inside el pos.doc).Into t₁ el →
      (Spec.list (c :: cs)).Handles args ((Position.inside el pos.doc).Copies T t₁ el) →
      Refines (buildList policy args fuel (Position.inside el pos.doc) inner (c :: cs)) t₁
        (denoteList policy args T fuel inner (c :: cs))
        (fun _ L t' => (Position.inside el pos.doc).Puts t₁ t' L)) :
    Refines (placeElement pos scope tag attrs args policy >>= fun r =>
        match children with
        | [] => pure r.2.1
        | c :: cs => buildList policy args fuel (Position.inside r.1 pos.doc) r.2.2 (c :: cs)) t
      (elementOf tag scope attrs args policy >>= fun b =>
        denoteList policy args T fuel b.2 children >>= fun kids =>
          pure [.node (.element b.1) kids])
      (fun _ L t' => pos.Puts t t' L) := by
  refine (hin.refines_placeElement ht scope tag attrs args policy).bind fun r b t₂ h₂ => ?_
  obtain ⟨el, v, inner⟩ := r
  obtain ⟨e, inner'⟩ := b
  obtain ⟨rfl, hl, hfresh, hcontent, hkids⟩ := h₂
  dsimp only at hl hfresh hcontent hkids ⊢
  have htype : t₂.nodeType el = .element := by
    simp only [Tree.nodeType, hcontent]
    rfl
  have hel : el < t₂.size := lt_size_of_nodeType_ne (by rw [htype]; exact fun h => by cases h)
  have hput : ∀ t' kids, (Position.inside el pos.doc).Puts t₂ t' kids →
      pos.Puts t t' [.node (.element e) kids] := by
    intro t' kids hp
    obtain ⟨o, hl'⟩ := hp.exists_leaves
    refine .inr ⟨[el], List.cons_ne_nil _ _, ?_, hl.nest hl' ht hin.reference_lt hfresh⟩
    rw [List.map_singleton, shape_eq hl'.wf, hl'.content hel, hcontent, hp.children_eq hel hkids]
  cases children with
  | nil =>
    rw [denoteList_nil]
    exact refines_pure v _ (hput t₂ [] (.nothing (.refl hl.wf)))
  | cons c cs =>
    have hpar : t₂.parent el = some H := hl.parent_of_mem hin.hostIn (List.mem_singleton_self el)
    refine (ih el inner c cs rfl t₂ hl.wf (into_inside (.inl htype))
      (hh.mono fun n hc => hc.inside hl ht hin hfresh (.inr hpar))).map fun _ kids t' hp => ?_
    exact hput t' kids hp

/-- A batch built into a new fragment, whose children, if it got any, then move in one step: what
lands is what the items denote, one after the other. -/
theorem Position.Into.refines_batch (hin : pos.Into t H) (ht : t.WellFormed) {T : Tree}
    {args : List Spec} {x : Spec} {rest : List Spec} {dx drest : Except BuildError (List Shape)}
    (first : NodeId → BuildM NodeId) (more : NodeId → BuildM Unit)
    (hh : (Spec.list (x :: rest)).Handles args (pos.Copies T t H))
    (hfirst : ∀ t₁ : Tree, t₁.WellFormed → (Position.inside t.size pos.doc).Into t₁ t.size →
      x.Handles args ((Position.inside t.size pos.doc).Copies T t₁ t.size) →
      Refines (first t.size) t₁ dx
        (fun _ L t₂ => (Position.inside t.size pos.doc).Puts t₁ t₂ L))
    (hmore : ∀ t₁ : Tree, t₁.WellFormed → (Position.inside t.size pos.doc).Into t₁ t.size →
      (Spec.list rest).Handles args ((Position.inside t.size pos.doc).Copies T t₁ t.size) →
      Refines (more t.size) t₁ drest
        (fun _ L t₂ => (Position.inside t.size pos.doc).Puts t₁ t₂ L)) :
    Refines (do
        let frag ← alloc (·.createFragment pos.doc)
        let _ ← first frag
        more frag
        if (← read (·.firstChild frag)).isNone then return pos.reference
        pos.mode.attach frag pos.reference) t
      (dx >>= fun a => drest >>= fun b => pure (a ++ b)) (fun _ L t' => pos.Puts t t' L) := by
  have hwf₁ : (t.alloc .fragment (some pos.doc)).1.WellFormed :=
    ht.alloc _ _ fun _ he => by cases he
  have h₁ : pos.Leaves t (t.alloc .fragment (some pos.doc)).1 none :=
    Position.Leaves.of_get hwf₁ (by simp) fun _ hx => get_alloc_of_lt _ _ hx
  have hfrag : t.size < (t.alloc .fragment (some pos.doc)).1.size := by simp
  have htype : ∀ t₂ o, (Position.inside t.size pos.doc).Leaves (t.alloc .fragment (some pos.doc)).1
      t₂ o → t₂.nodeType t.size = .fragment := by
    intro t₂ o hl
    rw [hl.nodeType hfrag, nodeType_alloc, if_pos rfl]
    rfl
  have hinto : ∀ t₂ o, (Position.inside t.size pos.doc).Leaves (t.alloc .fragment (some pos.doc)).1
      t₂ o → (Position.inside t.size pos.doc).Into t₂ t.size :=
    fun t₂ o hl => into_inside (.inr (htype t₂ o hl))
  have hcopies : ∀ n, pos.Copies T t H n →
      (Position.inside t.size pos.doc).Copies T (t.alloc .fragment (some pos.doc)).1 t.size n :=
    fun n hc => hc.inside h₁ ht hin le_rfl (.inl (by rw [parent_alloc, if_pos rfl]))
  refine Refines.of_eq (bind_apply_of_eq_ok rfl) ?_
  refine (hfirst _ hwf₁ (hinto _ _ (.refl hwf₁)) ((hh.step (.item (List.mem_cons_self ..))).mono
    hcopies)).bind fun _ a t₂ h₂ => ?_
  obtain ⟨o₂, hl₂⟩ := h₂.exists_leaves
  refine (hmore t₂ hl₂.wf (hinto _ _ hl₂)
    ((hh.sublist fun y hy => List.mem_cons_of_mem _ hy).mono fun n hc =>
      (hcopies n hc).of_leaves hl₂ hwf₁ (hinto _ _ (.refl hwf₁)))).bind fun _ b t₃ h₃ => ?_
  have hput := h₂.append rfl hfrag h₃
  obtain ⟨o₃, hl₃⟩ := hput.exists_leaves
  have hlt : pos.Leaves t t₃ none := h₁.nest hl₃ ht hin.reference_lt le_rfl
  have hkids : (t₃.children t.size).map t₃.shape = a ++ b :=
    hput.children_eq hfrag (by rw [children_alloc, if_pos rfl])
  refine Refines.of_eq (bind_apply_of_eq_ok rfl) ?_
  split
  · -- the fragment got no children: nothing lands
    rename_i hnone
    have hnil : t₃.children t.size = [] := by simpa [firstChild] using hnone
    rw [hnil, List.map_nil] at hkids
    rw [← hkids]
    exact refines_pure _ [] (.nothing hlt)
  · rename_i hsome
    have hne : t₃.children t.size ≠ [] := fun hnil => by simp [firstChild, hnil] at hsome
    have hnp : t₃.parent t.size = none := by
      rw [hl₃.parent hfrag (.inr (by simp [Position.gone, Position.inside])), parent_alloc, if_pos rfl]
    refine (hin.refines_attach_puts hlt ht le_rfl hnp fun _ _ => hne).congr ?_
    rw [copied, if_neg (by rw [htype t₃ o₃ hl₃]; exact fun h => by cases h), incoming, if_pos (htype t₃ o₃ hl₃),
      hkids]
    rfl

end Element

end Markup
