import Markup.Proofs.Tree.Insertion
import Markup.Xml.Writer

/-!
# Renumbering a tree one up

A render into a fragment works on a tree with one node more than a render into a document:
the new document is node 0 in both, and the fragment the build goes into is node 1. Every
node the build makes afterwards is numbered one higher in the second tree, and the fragment
stands where the document stands in the first.

`Shifted t u` says that `u` is `t` so renumbered: node `n + 1` of `u` has the content of node
`n` of `t` and its links renumbered, except that node 0 of `t`, the document, is a fragment in
`u`; node 0 of `u` is reached by no link. Owners are not compared: nothing the build or the
writer does reads them.

The edits of a tree respect the renumbering as long as they do not insert under node 0 of
`t` (`Shifted.appendChild`); inserting there is checked against the rules of a document in `t`
but not in `u` (`Shifted.appendChild_root`). Writing respects it too: node `n + 1` of `u` is
written as node `n` of `t` (`Shifted.writeNode`).
-/

namespace Markup.Tree

/-- `u` is `t` with every node numbered one higher and the document of `t` standing as a
fragment. Node 0 of `t` is the only document it holds. -/
structure Shifted (t u : Tree) : Prop where
  size : u.size = t.size + 1
  pos : 0 < t.size
  document : (t.get 0).content = .document
  fragment : (u.get 1).content = .fragment
  single : ∀ n, n ≠ 0 → n < t.size → t.nodeType n ≠ .document
  content : ∀ n, n ≠ 0 → (u.get (n + 1)).content = (t.get n).content
  parent : ∀ n, u.parent (n + 1) = (t.parent n).map (· + 1)
  children : ∀ n, u.children (n + 1) = (t.children n).map (· + 1)

namespace Shifted

variable {t u : Tree}

/-! ## Reading a renumbered tree -/

theorem nodeType (h : Shifted t u) {n : NodeId} (hn : n ≠ 0) : u.nodeType (n + 1) = t.nodeType n := by
  simp only [Tree.nodeType, h.content n hn]

theorem nodeType_zero (h : Shifted t u) : t.nodeType 0 = .document := by
  simp only [Tree.nodeType, h.document, Content.type]

theorem nodeType_one (h : Shifted t u) : u.nodeType 1 = .fragment := by
  simp only [Tree.nodeType, h.fragment, Content.type]

theorem element? (h : Shifted t u) (n : NodeId) : u.element? (n + 1) = t.element? n := by
  by_cases hn : n = 0
  · subst hn
    simp only [Tree.element?, h.document, h.fragment]
  · simp only [Tree.element?, h.content n hn]

theorem firstChild (h : Shifted t u) (n : NodeId) :
    u.firstChild (n + 1) = (t.firstChild n).map (· + 1) := by
  simp only [Tree.firstChild, h.children, List.head?_map]

theorem lastChild (h : Shifted t u) (n : NodeId) :
    u.lastChild (n + 1) = (t.lastChild n).map (· + 1) := by
  simp only [Tree.lastChild, h.children, List.getLast?_map]

theorem isAncestorWithin (h : Shifted t u) (a : NodeId) (k : Nat) (n : NodeId) :
    u.isAncestorWithin (a + 1) k (n + 1) = t.isAncestorWithin a k n := by
  induction k generalizing n with
  | zero => rfl
  | succ k ih =>
    simp only [Tree.isAncestorWithin, h.parent, Nat.add_right_cancel_iff, beq_iff_eq]
    cases t.parent n with
    | none => rfl
    | some p => exact congrArg _ (ih p)

/-- A node other than the document is not a child of anything there, so it is not node 0. -/
theorem ne_zero_of_mem_children (h : Shifted t u) (hw : t.WellFormed) {p c : NodeId}
    (hc : c ∈ t.children p) : c ≠ 0 := by
  rintro rfl
  exact (hw.rooted (hw.mem_children.1 hc)).1 h.nodeType_zero

end Shifted

/-- The ancestor test of a well-formed tree gives the same answer with any more fuel: no chain
of parents is longer than the number of nodes. -/
theorem WellFormed.isAncestorWithin_eq {t : Tree} (hw : t.WellFormed) {k : Nat} (hk : t.size < k)
    (a n : NodeId) : t.isAncestorWithin a k n = t.isInclusiveAncestor a n := by
  rw [Bool.eq_iff_iff, isInclusiveAncestor, isAncestorWithin_iff, isAncestorWithin_iff]
  constructor
  · rintro ⟨j, -, hj⟩
    exact ⟨j, Nat.lt_succ_of_le (hw.ancestorAt_le hj), hj⟩
  · rintro ⟨j, -, hj⟩
    exact ⟨j, Nat.lt_of_le_of_lt (hw.ancestorAt_le hj) hk, hj⟩

namespace Shifted

variable {t u : Tree}

theorem isInclusiveAncestor (h : Shifted t u) (hw : t.WellFormed) (a n : NodeId) :
    u.isInclusiveAncestor (a + 1) (n + 1) = t.isInclusiveAncestor a n := by
  rw [Tree.isInclusiveAncestor, h.size, h.isAncestorWithin, hw.isAncestorWithin_eq (by omega)]

/-! ## Editing a renumbered tree -/

theorem alloc (h : Shifted t u) {c : Content} (hc : c.type ≠ .document) (o : Option NodeId) :
    Shifted (t.alloc c o).1 (u.alloc c o).1 where
  size := by simp [h.size]
  pos := by simp
  document := by rw [content_alloc, if_neg (Nat.ne_of_lt h.pos), h.document]
  fragment := by
    have hne : ¬ 1 = u.size := by
      have := h.pos
      rw [h.size]
      omega
    rw [content_alloc, if_neg hne, h.fragment]
  single := by
    intro n hn hlt
    rw [nodeType_alloc]
    by_cases hnt : n = t.size
    · rw [if_pos hnt]
      exact hc
    · rw [if_neg hnt]
      rw [size_alloc] at hlt
      exact h.single n hn (by omega)
  content := by
    intro n hn
    simp only [content_alloc, h.size, Nat.add_right_cancel_iff, h.content n hn]
  parent := by
    intro n
    simp only [parent_alloc, h.size, Nat.add_right_cancel_iff, h.parent]
    split <;> rfl
  children := by
    intro n
    simp only [children_alloc, h.size, Nat.add_right_cancel_iff, h.children]
    split <;> rfl

theorem alloc_snd (h : Shifted t u) (c : Content) (o : Option NodeId) :
    (u.alloc c o).2 = (t.alloc c o).2 + 1 := by
  simp [h.size]

theorem detach (h : Shifted t u) (n : NodeId) : Shifted (t.detach n) (u.detach (n + 1)) where
  size := by simp [h.size]
  pos := by simp [h.pos]
  document := by rw [content_detach, h.document]
  fragment := by rw [content_detach, h.fragment]
  single := by
    intro m hm hlt
    simp only [Tree.nodeType, content_detach]
    exact h.single m hm (by simpa using hlt)
  content := by
    intro m hm
    rw [content_detach, content_detach, h.content m hm]
  parent := by
    intro m
    simp only [parent_detach, Nat.add_right_cancel_iff, h.parent]
    split <;> rfl
  children := by
    intro m
    rw [children_detach, children_detach, h.parent, h.children]
    by_cases hp : t.parent n = some m
    · rw [if_pos hp, if_pos (by rw [hp]; rfl),
        List.map_erase (fun _ _ hab => Nat.add_right_cancel hab)]
    · rw [if_neg hp, if_neg]
      intro hp'
      obtain ⟨m', hm', hmm⟩ := Option.map_eq_some_iff.1 hp'
      exact hp (by rw [hm', Nat.add_right_cancel hmm])

theorem linkBefore (h : Shifted t u) {p n : NodeId} (hp : p < t.size) (hn : n < t.size) :
    Shifted (t.linkBefore p n none) (u.linkBefore (p + 1) (n + 1) none) where
  size := by simp [h.size]
  pos := by simp [h.pos]
  document := by rw [content_linkBefore, h.document]
  fragment := by rw [content_linkBefore, h.fragment]
  single := by
    intro m hm hlt
    rw [nodeType_linkBefore]
    exact h.single m hm (by simpa using hlt)
  content := by
    intro m hm
    rw [content_linkBefore, content_linkBefore, h.content m hm]
  parent := by
    intro m
    have hn' : n + 1 < u.size := h.size ▸ Nat.succ_lt_succ hn
    simp only [parent_linkBefore _ hn', parent_linkBefore _ hn, Nat.add_right_cancel_iff, h.parent]
    split <;> rfl
  children := by
    intro m
    have hp' : p + 1 < u.size := h.size ▸ Nat.succ_lt_succ hp
    simp only [children_linkBefore hp', children_linkBefore hp, Nat.add_right_cancel_iff,
      h.children]
    split
    · simp [insertInto]
    · rfl

theorem insertNodes (h : Shifted t u) (hw : t.WellFormed) {p c : NodeId} (hp : p < t.size)
    (hc0 : c ≠ 0) (hc : c < t.size) :
    Shifted (t.insertNodes p c none) (u.insertNodes (p + 1) (c + 1) none) := by
  -- the moved nodes are unlinked and linked under the parent one by one; the sizes never change
  have hfold : ∀ xs : List NodeId, (∀ x ∈ xs, x < t.size) → ∀ s v, Shifted s v → s.size = t.size →
      Shifted (xs.foldl (fun s n => (s.detach n).linkBefore p n none) s)
        (xs.foldl (fun v n => (v.detach (n + 1)).linkBefore (p + 1) (n + 1) none) v) := by
    intro xs
    induction xs with
    | nil => intro _ s v hsv _; exact hsv
    | cons x xs ih =>
      intro hxs s v hsv hsize
      have hx := hxs x List.mem_cons_self
      refine ih (fun y hy => hxs y (List.mem_cons_of_mem _ hy)) _ _ ?_ (by simp [hsize])
      exact (hsv.detach x).linkBefore (by simp [hsize, hp]) (by simp [hsize, hx])
  unfold Tree.insertNodes
  rw [h.nodeType hc0]
  by_cases hfr : (t.nodeType c == .fragment) = true
  · rw [if_pos hfr, if_pos hfr, h.children, List.foldl_map]
    exact hfold _ (fun x hx => lt_size_of_parent_eq_some (hw.mem_children.1 hx)) t u h rfl
  · rw [if_neg hfr, if_neg hfr]
    exact hfold [c] (by simp [hc]) t u h rfl

theorem modifyElement (h : Shifted t u) (n : NodeId) (f : Element → Element) :
    Shifted (t.modifyElement n f) (u.modifyElement (n + 1) f) where
  size := by simp [h.size]
  pos := by simp [h.pos]
  document := by
    simp only [Tree.modifyElement, get_modify]
    split
    · rw [h.document]
      exact h.document
    · exact h.document
  fragment := by
    simp only [Tree.modifyElement, get_modify]
    split
    · rw [h.fragment]
      exact h.fragment
    · exact h.fragment
  single := by
    intro m hm hlt
    rw [nodeType_modifyElement]
    exact h.single m hm (by simpa using hlt)
  content := by
    intro m hm
    simp only [Tree.modifyElement, get_modify, h.size, Nat.add_right_cancel_iff,
      Nat.add_lt_add_iff_right]
    split
    · cases hc : (t.get m).content <;> simp [h.content m hm, hc]
    · exact h.content m hm
  parent := by
    intro m
    rw [parent_modifyElement, parent_modifyElement, h.parent]
  children := by
    intro m
    rw [children_modifyElement, children_modifyElement, h.children]

end Shifted

/-- The outcomes of an edit on two trees, the second the first renumbered: both fail, or both
succeed and the results are again so related. -/
def ShiftedEdit : Except TreeError Tree → Except TreeError Tree → Prop
  | .ok t', .ok u' => Shifted t' u'
  | .error _, .error _ => True
  | _, _ => False

namespace Shifted

variable {t u : Tree}

theorem setAttribute (h : Shifted t u) (el : NodeId) (name value : String) :
    ShiftedEdit (t.setAttribute el name value) (u.setAttribute (el + 1) name value) := by
  simp only [Tree.setAttribute, h.element? el]
  by_cases hq : (!Name.isQName name) = true
  · rw [if_pos hq, if_pos hq]
    trivial
  · rw [if_neg hq, if_neg hq]
    cases t.element? el with
    | none => trivial
    | some e => exact h.modifyElement el _

theorem setAttributeNs (h : Shifted t u) (el : NodeId) (ns qualified value : String) :
    ShiftedEdit (t.setAttributeNs el ns qualified value)
      (u.setAttributeNs (el + 1) ns qualified value) := by
  simp only [Tree.setAttributeNs, h.element? el]
  cases QName.parse? qualified with
  | none => trivial
  | some q =>
    cases t.element? el with
    | none => trivial
    | some e => exact h.modifyElement el _

/-- Inserting under a node other than the document is checked alike and moves the same nodes. -/
theorem appendChild (h : Shifted t u) (hw : t.WellFormed) {p c : NodeId} (hp0 : p ≠ 0)
    (hp : p < t.size) (hc0 : c ≠ 0) (hc : c < t.size) :
    ShiftedEdit (t.appendChild p c) (u.appendChild (p + 1) (c + 1)) := by
  have hpt : t.nodeType p ≠ .document := h.single p hp0 hp
  -- neither check reaches the rules of a document
  have hcheck : t.checkInsertion p c none = .ok () ↔ u.checkInsertion (p + 1) (c + 1) none = .ok () := by
    rw [checkInsertion_eq_ok, checkInsertion_eq_ok, h.nodeType hp0, h.nodeType hc0,
      h.isInclusiveAncestor hw]
    simp only [hpt, false_imp_iff, and_true]
  simp only [Tree.appendChild, bind, Except.bind, pure, Except.pure]
  cases h₁ : t.checkInsertion p c none with
  | error e =>
    cases h₂ : u.checkInsertion (p + 1) (c + 1) none with
    | error e' => trivial
    | ok _ =>
      rw [hcheck.2 h₂] at h₁
      cases h₁
  | ok _ =>
    rw [hcheck.1 h₁]
    exact h.insertNodes hw hp hc0 hc

/-- The fragment of `u` takes every node its renumbered document would get. -/
theorem appendChild_one (h : Shifted t u) (hw : t.WellFormed) {c : NodeId} (hc0 : c ≠ 0)
    (hc : c < t.size) : u.appendChild 1 (c + 1) = .ok (u.insertNodes 1 (c + 1) none) := by
  have hdoc : t.nodeType c ≠ .document := h.single c hc0 hc
  -- the document of `t` has no parent, so nothing below it is inserted into it
  have hroot : t.isInclusiveAncestor c 0 = false := by
    rw [← Bool.not_eq_true, hw.isInclusiveAncestor_iff]
    intro hc'
    rcases hc'.cases_tail with rfl | ⟨b, -, hb⟩
    · exact hc0 rfl
    · exact (hw.rooted hb).1 h.nodeType_zero
  have hcheck : u.checkInsertion 1 (c + 1) none = .ok () := by
    rw [checkInsertion_eq_ok, h.nodeType_one, h.nodeType hc0, show (1 : NodeId) = 0 + 1 from rfl,
      h.isInclusiveAncestor hw, hroot]
    exact ⟨rfl, hdoc, rfl, fun hd => absurd hd (by decide)⟩
  simp only [Tree.appendChild, hcheck, bind, Except.bind, pure, Except.pure]

/-- The kinds of the nodes at the top of the fragment of `u` are those at the top of the
document of `t`. -/
theorem top_nodeTypes (h : Shifted t u) (h0 : 0 ∉ t.children 0) :
    (u.children 1).map u.nodeType = (t.children 0).map t.nodeType := by
  rw [show (1 : NodeId) = 0 + 1 from rfl, h.children, List.map_map]
  refine List.map_congr_left fun x hx => ?_
  exact h.nodeType fun hx0 => h0 (hx0 ▸ hx)

end Shifted

theorem placeBefore_none (L M : List NodeId) : placeBefore L M none = L ++ M := by
  have hall : ∀ x ∈ L, (decide (some x ≠ none)) = true := fun x _ => by simp
  simp only [placeBefore, List.takeWhile_eq_self_iff.2 hall, List.dropWhile_eq_nil_iff.2 hall,
    List.append_nil]

namespace Shifted

variable {t u : Tree}

/-- The document of `t` has no parent, so no other node is above it. -/
theorem not_reflTransGen_zero (h : Shifted t u) (hw : t.WellFormed) {n : NodeId} (hn0 : n ≠ 0) :
    ¬ Relation.ReflTransGen t.ParentOf n 0 := by
  intro hc'
  rcases hc'.cases_tail with rfl | ⟨b, -, hb⟩
  · exact hn0 rfl
  · exact (hw.rooted hb).1 h.nodeType_zero

/-- Inserting a node into the fragment of `u` puts at its top the kinds of nodes that inserting
it into the document of `t` would put there. -/
theorem top_insertNodes_zero (h : Shifted t u) (hw : t.WellFormed) {n : NodeId} (hn0 : n ≠ 0)
    (hn : n < t.size) :
    ((u.insertNodes 1 (n + 1) none).children 1).map (u.insertNodes 1 (n + 1) none).nodeType =
      (spliceBefore (t.children 0) (t.incoming n) none).map t.nodeType := by
  have hs := insertNodes_spliced hw h.pos hn (h.not_reflTransGen_zero hw hn0) none (by simp)
  have hinc : ∀ x ∈ t.incoming n, x ≠ 0 := by
    intro x hx
    unfold incoming at hx
    split at hx
    · exact h.ne_zero_of_mem_children hw hx
    · rw [List.mem_singleton.1 hx]
      exact hn0
  have hz : 0 ∉ (t.insertNodes 0 n none).children 0 := by
    rw [hs.children_self, placeBefore_none, List.mem_append, not_or]
    exact ⟨fun h0 => h.ne_zero_of_mem_children hw (List.mem_filter.1 h0).1 rfl,
      fun h0 => hinc 0 h0 rfl⟩
  rw [(h.insertNodes hw h.pos hn0 hn).top_nodeTypes hz, hs.children_self, placeBefore_none]
  simp only [spliceBefore]
  exact List.map_congr_left fun x _ => by simp only [Tree.nodeType, hs.content_eq x]

/-- The fragment of `u` takes every node, and the document of `t` takes a node exactly when the
fragment then holds at its top what a document may hold. -/
theorem appendChild_zero_iff (h : Shifted t u) (hw : t.WellFormed) {n : NodeId} (hn0 : n ≠ 0)
    (hn : n < t.size) :
    (∃ t', t.appendChild 0 n = .ok t') ↔
      NodeType.DocumentAllows (((u.insertNodes 1 (n + 1) none).children 1).map
        (u.insertNodes 1 (n + 1) none).nodeType) := by
  rw [h.top_insertNodes_zero hw hn0 hn, appendChild_ok_iff hw, InsertionAllowed, h.nodeType_zero]
  exact ⟨fun h' => h'.2.2.2 rfl,
    fun h' => ⟨rfl, h.single n hn0 hn, h.not_reflTransGen_zero hw hn0, fun _ => h'⟩⟩

end Shifted

/-! ## Writing a renumbered tree -/

namespace Shifted

variable {t u : Tree}

/-- Node `n + 1` of `u` is written as node `n` of `t`: the fragment of `u`, like the document
of `t`, writes its children, and the other nodes agree in content and children. -/
theorem writeNode (h : Shifted t u) (k : Nat) (scope : List (String × String)) (pr : Xml.Printer)
    (n : NodeId) : Xml.writeNode u k scope pr (n + 1) = Xml.writeNode t k scope pr n := by
  induction k generalizing scope pr n with
  | zero => rfl
  | succ k ih =>
    -- the children are written in order, each renumbered
    have hfold : ∀ scope pr (xs : List NodeId), (xs.map (· + 1)).foldl (Xml.writeNode u k scope) pr =
        xs.foldl (Xml.writeNode t k scope) pr := fun scope pr xs => by
      rw [List.foldl_map]
      exact List.foldl_ext _ _ _ fun pr x _ => ih scope pr x
    by_cases hn : n = 0
    · subst hn
      simp only [Xml.writeNode, h.fragment, h.document, h.children, hfold]
    · simp only [Xml.writeNode, h.content n hn, h.children]
      cases (t.get n).content with
      | document => exact hfold scope pr _
      | fragment => exact hfold scope pr _
      | element e =>
        dsimp only
        cases t.children n with
        | nil => rfl
        | cons x xs => exact congrArg (·.close ("</" ++ e.tagName ++ ">")) (hfold _ _ (x :: xs))
      | _ => rfl

end Shifted

/-- Writing a node of a well-formed tree goes no deeper than its descendants: fuel past the
longest chain of parents below the node changes nothing. -/
theorem WellFormed.writeNode_succ {t : Tree} (hw : t.WellFormed) {k : Nat}
    (scope : List (String × String)) (pr : Xml.Printer) {n : NodeId}
    (hk : ∀ j m, t.ancestorAt j m = some n → j < k) :
    Xml.writeNode t k scope pr n = Xml.writeNode t (k + 1) scope pr n := by
  induction k generalizing scope pr n with
  | zero => exact absurd (hk 0 n rfl) (Nat.lt_irrefl 0)
  | succ k ih =>
    -- a descendant of a child lies one step further from the node
    have hchild : ∀ c ∈ t.children n, ∀ j m, t.ancestorAt j m = some c → j < k := by
      intro c hc j m hj
      have hstep := t.ancestorAt_add j 1 m
      rw [hj, Option.bind_some] at hstep
      simp only [ancestorAt, hw.mem_children.1 hc, Option.bind_some] at hstep
      have := hk (j + 1) m hstep
      omega
    have hkids : ∀ scope pr, (t.children n).foldl (Xml.writeNode t k scope) pr =
        (t.children n).foldl (Xml.writeNode t (k + 1) scope) pr := fun scope pr =>
      List.foldl_ext _ _ _ fun pr c hc => ih scope pr (hchild c hc)
    simp only [Xml.writeNode]
    cases (t.get n).content with
    | document => exact hkids scope pr
    | fragment => exact hkids scope pr
    | element e =>
      dsimp only
      have hk' := hkids (Xml.missing scope e).2
      cases hc : t.children n with
      | nil => rfl
      | cons x xs =>
        rw [hc] at hk'
        exact congrArg (·.close ("</" ++ e.tagName ++ ">")) (hk' _)
    | _ => rfl

/-- Without the XML declaration, the fragment of `u` is written as the document of `t`. -/
theorem Shifted.serialize {t u : Tree} (h : Shifted t u) (hw : t.WellFormed) {opts : Xml.Options}
    (hdecl : opts.declaration = false) : Xml.serialize u 1 opts = Xml.serialize t 0 opts := by
  have hdepth : ∀ j m, t.ancestorAt j m = some 0 → j < t.size + 1 :=
    fun _ _ hj => Nat.lt_succ_of_le (hw.ancestorAt_le hj)
  simp only [Xml.serialize, hdecl, Bool.false_and, Bool.false_eq_true, if_false]
  rw [h.size, show (1 : NodeId) = 0 + 1 from rfl, h.writeNode, ← hw.writeNode_succ _ _ hdepth]

end Markup.Tree
