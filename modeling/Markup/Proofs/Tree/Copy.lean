import Markup.Proofs.Tree.Reachable

/-!
# A deep clone is a copy of the subtree

`cloneNode n true` makes one new node for each node of the subtree of `n`, from the end of the
arena, and links the copies of each node's children under its copy in order. `CopyMap` says what
that leaves: a map `σ` from the subtree of `n` onto the new nodes, one to one, under which each
copy has its original's content and owner, and the copies of its original's children as its
children, in order. No old node changes, and the subtree of the copy is exactly the set of new
nodes, so it shares no node with the subtree of `n`: an edit below one never reaches the other
(`DeepCopy`, `WellFormed.deepCopy_cloneNode`).

The proof follows the clone's recursion on its fuel. One turn of its loop clones a child `c` and
links the copy under the new root: the map grows by the map of `c`'s clone, which covers the
subtree of `c`, disjoint from what the map covered before. The fuel the clone is given, one more
than the number of nodes, exceeds the depth of every subtree of a well-formed tree.
-/

namespace Markup.Tree

open Relation

variable {t u : Tree}

/-! ## Subtrees -/

/-- Two nodes above one node are one above the other: a node has one parent. -/
theorem below_total {a b x : NodeId} (ha : ReflTransGen t.ParentOf a x)
    (hb : ReflTransGen t.ParentOf b x) :
    ReflTransGen t.ParentOf a b ∨ ReflTransGen t.ParentOf b a := by
  have hu : Relator.RightUnique (Function.swap t.ParentOf) := fun _ _ _ hp hq =>
    Option.some.inj (hp.symm.trans hq)
  rcases ReflTransGen.total_of_right_unique hu (reflTransGen_swap.2 ha) (reflTransGen_swap.2 hb)
    with h | h
  · exact .inr (reflTransGen_swap.1 h)
  · exact .inl (reflTransGen_swap.1 h)

/-- The subtree of a child does not hold its parent. -/
theorem WellFormed.not_below_parent (h : t.WellFormed) {c n : NodeId} (hc : t.parent c = some n) :
    ¬ ReflTransGen t.ParentOf c n :=
  fun hcn => h.not_transGen_self c (TransGen.tail' hcn hc)

/-- The subtrees of two children of one node are disjoint. -/
theorem WellFormed.not_below_sibling (h : t.WellFormed) {c p n x : NodeId}
    (hc : t.parent c = some n) (hp : t.parent p = some n) (hcp : c ≠ p)
    (hpx : ReflTransGen t.ParentOf p x) : ¬ ReflTransGen t.ParentOf c x := by
  intro hcx
  -- one of the two children is above the other, hence above their common parent
  have above : ∀ {a b : NodeId}, t.parent a = some n → t.parent b = some n → a ≠ b →
      ¬ ReflTransGen t.ParentOf a b := by
    intro a b ha hb hab hab'
    rcases hab'.cases_tail with rfl | ⟨m, ham, hmb⟩
    · exact hab rfl
    · have hm : m = n := Option.some.inj (hmb.symm.trans hb)
      subst hm
      exact h.not_below_parent ha ham
  rcases below_total hcx hpx with hcp' | hpc'
  · exact above hc hp hcp hcp'
  · exact above hp hc (Ne.symm hcp) hpc'

/-- A tree that grew from `t` by adding nodes, without touching the old ones, has the same
subtree below every old node. -/
theorem below_iff_of_grown (ht : t.WellFormed) (hu : u.WellFormed)
    (hget : ∀ {x}, x < t.size → u.get x = t.get x) {c x : NodeId} (hc : c < t.size) :
    ReflTransGen u.ParentOf c x ↔ ReflTransGen t.ParentOf c x := by
  have hparent : ∀ {y}, y < t.size → u.parent y = t.parent y := fun hy => by
    simp only [parent, hget hy]
  constructor
  · intro hux
    -- going down from an old node through old child lists stays among old nodes
    suffices ReflTransGen t.ParentOf c x ∧ x < t.size from this.1
    induction hux with
    | refl => exact ⟨.refl, hc⟩
    | @tail y z _ hyz ih =>
      obtain ⟨hcy, hy⟩ := ih
      have hkids : u.children y = t.children y := by simp only [children, hget hy]
      have hz := ht.mem_children.1 (hkids ▸ hu.mem_children.2 hyz)
      exact ⟨hcy.tail hz, lt_size_of_parent_eq_some hz⟩
  · intro htx
    induction htx with
    | refl => exact .refl
    | tail _ hyz ih =>
      exact ih.tail (show u.parent _ = _ by rw [hparent (lt_size_of_parent_eq_some hyz)]; exact hyz)

/-- A subtree is its root and the subtrees of the root's children. -/
theorem below_iff_children (h : t.WellFormed) {n x : NodeId} :
    ReflTransGen t.ParentOf n x ↔ x = n ∨ ∃ c ∈ t.children n, ReflTransGen t.ParentOf c x := by
  rw [ReflTransGen.cases_head_iff, eq_comm]
  constructor
  · rintro (hx | ⟨c, hc, hcx⟩)
    · exact .inl hx
    · exact .inr ⟨c, h.mem_children.2 hc, hcx⟩
  · rintro (hx | ⟨c, hc, hcx⟩)
    · exact .inl hx
    · exact .inr ⟨c, h.mem_children.1 hc, hcx⟩

/-! ## Depth -/

/-- Every node below `n` is fewer than `k` parents away from it. -/
def DepthBelow (t : Tree) (n : NodeId) (k : Nat) : Prop :=
  ∀ {d x}, t.ancestorAt d x = some n → d < k

/-- The depth of a child's subtree is one less than its parent's. -/
theorem DepthBelow.child {n c : NodeId} {k : Nat} (hd : DepthBelow t n (k + 1))
    (hc : t.parent c = some n) : DepthBelow t c k := by
  intro d x hx
  have : t.ancestorAt (d + 1) x = some n := by
    rw [ancestorAt_add, hx]
    simp [ancestorAt, hc]
  exact Nat.lt_of_succ_lt_succ (hd this)

/-- No chain of parents in a well-formed tree is longer than the tree. -/
theorem WellFormed.depthBelow (h : t.WellFormed) (n : NodeId) : DepthBelow t n (t.size + 1) :=
  fun hx => Nat.lt_succ_of_le (h.ancestorAt_le hx)

/-- Growth that touches no old node keeps the depth below an old node. -/
theorem DepthBelow.of_grown (ht : t.WellFormed) (hu : u.WellFormed)
    (hget : ∀ {x}, x < t.size → u.get x = t.get x) {c : NodeId} {k : Nat} (hc : c < t.size)
    (hd : DepthBelow t c k) : DepthBelow u c k := by
  have hparent : ∀ {y}, y < t.size → u.parent y = t.parent y := fun hy => by
    simp only [parent, hget hy]
  -- the ancestors of an old node are old and the same in both trees
  have hanc : ∀ d {x}, x < t.size → u.ancestorAt d x = t.ancestorAt d x := by
    intro d
    induction d with
    | zero => intro x _; rfl
    | succ d ih =>
      intro x hx
      simp only [ancestorAt, hparent hx]
      cases hp : t.parent x with
      | none => rfl
      | some p => exact ih (ht.parent_lt hp)
  intro d x hx
  have hcx := (below_iff_of_grown ht hu hget hc).1
    (reflTransGen_iff_ancestorAt.2 ⟨d, hx⟩)
  have hxt : x < t.size := by
    rcases hcx.cases_tail with rfl | ⟨y, -, hy⟩
    · exact hc
    · exact lt_size_of_parent_eq_some hy
  exact hd (by rwa [← hanc d hxt])

/-! ## Copy maps -/

/-- `σ` maps the nodes `D` of `t` one to one onto the nodes that `u` adds to `t`; the image of
each has its content and owner, and the images of `kids x` as its children, in order. -/
structure CopyMap (t u : Tree) (D : NodeId → Prop) (kids : NodeId → List NodeId)
    (σ : NodeId → NodeId) : Prop where
  fresh : ∀ {x}, D x → t.size ≤ σ x ∧ σ x < u.size
  inj : ∀ {x y}, D x → D y → σ x = σ y → x = y
  onto : ∀ {y}, t.size ≤ y → y < u.size → ∃ x, D x ∧ σ x = y
  content : ∀ {x}, D x → (u.get (σ x)).content = (t.get x).content
  owner : ∀ {x}, D x → u.owner (σ x) = t.owner x
  children : ∀ {x}, D x → u.children (σ x) = (kids x).map σ

namespace CopyMap

variable {D D' : NodeId → Prop} {kids kids' : NodeId → List NodeId} {σ : NodeId → NodeId}

theorem congr (hc : CopyMap t u D kids σ) (hD : ∀ x, D x ↔ D' x)
    (hk : ∀ {x}, D x → kids x = kids' x) : CopyMap t u D' kids' σ where
  fresh hx := hc.fresh ((hD _).2 hx)
  inj hx hy := hc.inj ((hD _).2 hx) ((hD _).2 hy)
  onto hy hy' := by
    obtain ⟨x, hx, rfl⟩ := hc.onto hy hy'
    exact ⟨x, (hD x).1 hx, rfl⟩
  content hx := hc.content ((hD _).2 hx)
  owner hx := hc.owner ((hD _).2 hx)
  children hx := by rw [hc.children ((hD _).2 hx), hk ((hD _).2 hx)]

/-- The subtree of the image of `n` is exactly the set of new nodes. -/
theorem below_image_iff (hc : CopyMap t u (ReflTransGen t.ParentOf n) t.children σ)
    (ht : t.WellFormed) (hu : u.WellFormed) (y : NodeId) :
    ReflTransGen u.ParentOf (σ n) y ↔ t.size ≤ y ∧ y < u.size := by
  constructor
  · intro hy
    -- going down from the copy of `n` meets only copies
    suffices ∃ x, ReflTransGen t.ParentOf n x ∧ σ x = y by
      obtain ⟨x, hx, rfl⟩ := this
      exact hc.fresh hx
    induction hy with
    | refl => exact ⟨n, .refl, rfl⟩
    | tail _ hyz ih =>
      obtain ⟨x, hx, rfl⟩ := ih
      have hmem := hu.mem_children.2 hyz
      rw [hc.children hx, List.mem_map] at hmem
      obtain ⟨x', hx', rfl⟩ := hmem
      exact ⟨x', hx.tail (ht.mem_children.1 hx'), rfl⟩
  · rintro ⟨hy, hy'⟩
    obtain ⟨x, hx, rfl⟩ := hc.onto hy hy'
    induction hx with
    | refl => exact .refl
    | tail hnx hxz ih =>
      refine (ih (hc.fresh hnx).1 (hc.fresh hnx).2).tail (hu.mem_children.1 ?_)
      rw [hc.children hnx]
      exact List.mem_map_of_mem (ht.mem_children.2 hxz)

end CopyMap

/-! ## The clone's loop -/

/-- The nodes the clone loop over `n`'s children has copied after the prefix `P`: `n` and the
subtrees of `P`. -/
def CopiedUpTo (t : Tree) (n : NodeId) (P : List NodeId) (x : NodeId) : Prop :=
  x = n ∨ ∃ c ∈ P, ReflTransGen t.ParentOf c x

/-- The children the copies have after the prefix `P`: the copy of `n` has those of `P`. -/
def kidsUpTo (t : Tree) (n : NodeId) (P : List NodeId) (x : NodeId) : List NodeId :=
  if x = n then P else t.children x

open Classical in
/-- A map taken over, on the subtree of `c`, by the map of `c`'s clone. -/
noncomputable def extendBelow (t : Tree) (c : NodeId) (σc σ : NodeId → NodeId) (y : NodeId) :
    NodeId :=
  if ReflTransGen t.ParentOf c y then σc y else σ y

variable {n c : NodeId} {P R : List NodeId} {acc r : Tree × NodeId} {σ σc : NodeId → NodeId}

theorem extendBelow_of_below (hy : ReflTransGen t.ParentOf c y) :
    extendBelow t c σc σ y = σc y := by
  rw [extendBelow, if_pos hy]

theorem extendBelow_of_not_below (hy : ¬ ReflTransGen t.ParentOf c y) :
    extendBelow t c σc σ y = σ y := by
  rw [extendBelow, if_neg hy]

/-- The copy alone, before any child is cloned. -/
theorem copyMap_alloc (t : Tree) (n : NodeId) :
    CopyMap t (t.alloc (t.get n).content (t.get n).owner).1 (CopiedUpTo t n []) (kidsUpTo t n [])
      fun _ => t.size := by
  have hD : ∀ {x}, CopiedUpTo t n [] x → x = n := fun hx => by simpa [CopiedUpTo] using hx
  refine ⟨fun _ => ⟨le_refl _, by simp⟩, fun hx hy _ => (hD hx).trans (hD hy).symm,
    fun {y} hy hy' => ⟨n, .inl rfl, ?_⟩, fun hx => ?_, fun hx => ?_, fun hx => ?_⟩
  · rw [size_alloc] at hy'
    exact Nat.le_antisymm hy (Nat.le_of_lt_succ hy')
  · rw [content_alloc, if_pos rfl, hD hx]
  · simp only [owner, get_alloc, ↓reduceIte, hD hx]
  · rw [children_alloc, if_pos rfl, kidsUpTo, if_pos (hD hx), List.map_nil]

/-- One turn of the loop: the map of the child's clone, on the child's subtree, joins the map
of the prefix, and the copy of the child joins the children of the copy of `n`. -/
theorem copyMap_link (h : t.WellFormed) (hacc : ClonedUpTo t n P acc)
    (hσ : CopyMap t acc.1 (CopiedUpTo t n P) (kidsUpTo t n P) σ) (hσn : σ n = t.size)
    (hc : t.parent c = some n) (hcP : c ∉ P) (hP : ∀ p ∈ P, t.parent p = some n)
    (hr : Cloned acc.1 c r)
    (hσc : CopyMap acc.1 r.1 (ReflTransGen acc.1.ParentOf c) acc.1.children σc)
    (hσcc : σc c = r.2) :
    CopyMap t (r.1.linkBefore acc.2 r.2 none) (CopiedUpTo t n (P ++ [c]))
      (kidsUpTo t n (P ++ [c])) (extendBelow t c σc σ) := by
  have hct : c < t.size := lt_size_of_parent_eq_some hc
  have hbelow : ∀ {x}, ReflTransGen acc.1.ParentOf c x ↔ ReflTransGen t.ParentOf c x :=
    below_iff_of_grown h hacc.wellFormed hacc.get_old hct
  have hxold : ∀ {x}, ReflTransGen t.ParentOf c x → x < t.size := fun hx => by
    rcases hx.cases_tail with rfl | ⟨y, -, hy⟩
    · exact hct
    · exact lt_size_of_parent_eq_some hy
  -- what the loop copied before lies outside the child's subtree
  have hsib : ∀ {p x}, p ∈ P → ReflTransGen t.ParentOf p x → ¬ ReflTransGen t.ParentOf c x :=
    fun hp hpx => h.not_below_sibling hc (hP _ hp) (fun hcp => hcP (hcp ▸ hp)) hpx
  have hout : ∀ {x}, CopiedUpTo t n P x → ¬ ReflTransGen t.ParentOf c x := by
    rintro x (rfl | ⟨p, hp, hpx⟩)
    · exact h.not_below_parent hc
    · exact hsib hp hpx
  have hold : ∀ {x}, CopiedUpTo t n P x → extendBelow t c σc σ x = σ x :=
    fun hx => extendBelow_of_not_below (hout hx)
  have hnew : ∀ {x}, ReflTransGen t.ParentOf c x → extendBelow t c σc σ x = σc x :=
    fun hx => extendBelow_of_below hx
  have hparts : ∀ {x}, CopiedUpTo t n (P ++ [c]) x ↔
      CopiedUpTo t n P x ∨ ReflTransGen t.ParentOf c x := by
    intro x
    simp only [CopiedUpTo, List.mem_append, List.mem_singleton]
    constructor
    · rintro (hx | ⟨p, hp | rfl, hpx⟩)
      · exact .inl (.inl hx)
      · exact .inl (.inr ⟨p, hp, hpx⟩)
      · exact .inr hpx
    · rintro ((hx | ⟨p, hp, hpx⟩) | hx)
      · exact .inl hx
      · exact .inr ⟨p, .inl hp, hpx⟩
      · exact .inr ⟨c, .inr rfl, hx⟩
  have hcopy : acc.2 = t.size := hacc.copy_eq
  have hsize : t.size < acc.1.size := hacc.lt_size
  -- the prefix's copies are older than the child's clone, whose copies are new
  have hrange_old : ∀ {x}, CopiedUpTo t n P x → σ x < acc.1.size := fun hx => (hσ.fresh hx).2
  have hrange_new : ∀ {x}, ReflTransGen t.ParentOf c x → acc.1.size ≤ σc x ∧ σc x < r.1.size :=
    fun hx => hσc.fresh (hbelow.2 hx)
  have hlink : acc.2 < r.1.size := by
    rw [hcopy]
    exact Nat.lt_trans hsize hr.lt_size
  refine ⟨fun hx => ?_, fun hx hy hxy => ?_, fun {y} hy hy' => ?_, fun hx => ?_, fun hx => ?_,
    fun {x} hx => ?_⟩
  · -- fresh
    rw [size_linkBefore]
    rcases hparts.1 hx with hx | hx
    · rw [hold hx]
      exact ⟨(hσ.fresh hx).1, Nat.lt_trans (hrange_old hx) hr.lt_size⟩
    · rw [hnew hx]
      exact ⟨Nat.le_trans (Nat.le_of_lt hsize) (hrange_new hx).1, (hrange_new hx).2⟩
  · -- one to one: each map is, and their ranges are apart
    rcases hparts.1 hx with hx | hx <;> rcases hparts.1 hy with hy | hy
    · rw [hold hx, hold hy] at hxy
      exact hσ.inj hx hy hxy
    · rw [hold hx, hnew hy] at hxy
      exact absurd (hxy ▸ hrange_old hx) (Nat.not_lt.2 (hrange_new hy).1)
    · rw [hnew hx, hold hy] at hxy
      exact absurd (hxy ▸ hrange_old hy) (Nat.not_lt.2 (hrange_new hx).1)
    · rw [hnew hx, hnew hy] at hxy
      exact hσc.inj (hbelow.2 hx) (hbelow.2 hy) hxy
  · -- onto
    rw [size_linkBefore] at hy'
    rcases Nat.lt_or_ge y acc.1.size with hya | hya
    · obtain ⟨x, hx, rfl⟩ := hσ.onto hy hya
      exact ⟨x, hparts.2 (.inl hx), hold hx⟩
    · obtain ⟨x, hx, rfl⟩ := hσc.onto hya hy'
      exact ⟨x, hparts.2 (.inr (hbelow.1 hx)), hnew (hbelow.1 hx)⟩
  · -- content
    rw [content_linkBefore]
    rcases hparts.1 hx with hx | hx
    · rw [hold hx, hr.get_old (hrange_old hx), hσ.content hx]
    · rw [hnew hx, hσc.content (hbelow.2 hx), hacc.get_old (hxold hx)]
  · -- owner
    rw [owner_linkBefore]
    rcases hparts.1 hx with hx | hx
    · rw [hold hx, ← hσ.owner hx]
      simp only [owner, hr.get_old (hrange_old hx)]
    · rw [hnew hx, hσc.owner (hbelow.2 hx)]
      simp only [owner, hacc.get_old (hxold hx)]
  · -- children
    rw [children_linkBefore hlink]
    rcases hparts.1 hx with hx | hx
    · rw [hold hx]
      rcases hx with rfl | ⟨p, hp, hpx⟩
      · -- the copy of `n` gains the copy of `c` last
        have hkids : acc.1.children acc.2 = P.map σ := by
          rw [hcopy, ← hσn, hσ.children (.inl rfl), kidsUpTo, if_pos rfl]
        rw [hσn, ← hcopy, if_pos rfl, insertInto, hr.children_old (hcopy ▸ hsize), hkids,
          kidsUpTo, if_pos rfl, List.map_append, List.map_singleton, hnew .refl, hσcc]
        congr 1
        exact List.map_congr_left fun p hp => (hold (.inr ⟨p, hp, .refl⟩)).symm
      · have hxn : x ≠ n := fun hxn => h.not_below_parent (hP p hp) (hxn ▸ hpx)
        have hne : σ x ≠ acc.2 := fun he =>
          hxn (hσ.inj (.inr ⟨p, hp, hpx⟩) (.inl rfl) (he.trans (hcopy.trans hσn.symm)))
        rw [if_neg hne, hr.children_old (hrange_old (.inr ⟨p, hp, hpx⟩)),
          hσ.children (.inr ⟨p, hp, hpx⟩), kidsUpTo, if_neg hxn, kidsUpTo, if_neg hxn]
        exact List.map_congr_left fun y hy =>
          (hold (.inr ⟨p, hp, hpx.tail (h.mem_children.1 hy)⟩)).symm
    · have hxn : x ≠ n := fun hxn => hout (.inl rfl) (hxn ▸ hx)
      have hne : σc x ≠ acc.2 := fun he => by
        have hle := (hrange_new hx).1
        rw [he, hcopy] at hle
        exact Nat.lt_irrefl _ (Nat.lt_of_lt_of_le hsize hle)
      rw [hnew hx, if_neg hne, hσc.children (hbelow.2 hx), hacc.children_old (hxold hx),
        kidsUpTo, if_neg hxn]
      exact List.map_congr_left fun y hy => (hnew (hx.tail (h.mem_children.1 hy))).symm

/-- The whole loop over the children that remain after `P`, given what a clone of each child
does. -/
theorem copyMap_foldl (h : t.WellFormed) {fuel : Nat}
    (hclone : ∀ {s : Tree} {c : NodeId}, s.WellFormed → DepthBelow s c fuel →
      ∃ σc, σc c = s.size ∧
        CopyMap s (s.cloneWithin c true fuel).1 (ReflTransGen s.ParentOf c) s.children σc)
    (hd : DepthBelow t n (fuel + 1)) (hacc : ClonedUpTo t n P acc) (hPR : P ++ R = t.children n)
    (hσ : CopyMap t acc.1 (CopiedUpTo t n P) (kidsUpTo t n P) σ) (hσn : σ n = t.size) :
    ∃ σ', σ' n = t.size ∧ CopyMap t (R.foldl (fun acc c =>
      ((acc.1.cloneWithin c true fuel).1.linkBefore t.size (acc.1.cloneWithin c true fuel).2 none,
        t.size)) acc).1 (CopiedUpTo t n (t.children n)) (kidsUpTo t n (t.children n)) σ' := by
  induction R generalizing P acc σ with
  | nil => exact ⟨σ, hσn, by simpa [← hPR] using hσ⟩
  | cons c R ih =>
    have hnd : (P ++ c :: R).Nodup := hPR ▸ h.nodup n
    have hc : t.parent c = some n := h.mem_children.1 (by simp [← hPR])
    have hP : ∀ p ∈ P, t.parent p = some n := fun p hp => h.mem_children.1 (by simp [← hPR, hp])
    have hcP : c ∉ P := fun hcP => (List.nodup_append.1 hnd).2.2 c hcP c (by simp) rfl
    have hsub : (P ++ [c]).Sublist (t.children n) := by
      rw [← hPR, show P ++ c :: R = (P ++ [c]) ++ R by simp]
      exact List.sublist_append_left _ _
    -- the child's clone runs on the tree the loop has made so far
    have hdc : DepthBelow acc.1 c fuel := DepthBelow.of_grown h hacc.wellFormed hacc.get_old
      (lt_size_of_parent_eq_some hc) (hd.child hc)
    obtain ⟨σc, hσcc, hσc⟩ := hclone hacc.wellFormed hdc
    have hr := hacc.wellFormed.cloneWithin c true fuel
    have hstep := hacc.link h hc hsub hr
    have hmap := copyMap_link h hacc hσ hσn hc hcP hP hr hσc (hσcc.trans hr.copy_eq.symm)
    rw [hacc.copy_eq] at hstep hmap
    exact ih hstep (by simp [← hPR]) hmap
      ((extendBelow_of_not_below (h.not_below_parent hc)).trans hσn)

/-- With fuel beyond the depth of the subtree of `n`, a deep clone copies the whole subtree. -/
theorem copyMap_cloneWithin (fuel : Nat) :
    ∀ {t : Tree} {n : NodeId}, t.WellFormed → DepthBelow t n fuel →
      ∃ σ, σ n = t.size ∧
        CopyMap t (t.cloneWithin n true fuel).1 (ReflTransGen t.ParentOf n) t.children σ := by
  induction fuel with
  | zero => exact fun _ hd => absurd (hd (d := 0) rfl) (Nat.lt_irrefl 0)
  | succ fuel ih =>
    intro t n h hd
    have h₀ : ClonedUpTo t n [] (t.alloc (t.get n).content (t.get n).owner) :=
      ⟨cloned_alloc h n, by simp [children_alloc]⟩
    obtain ⟨σ, hσn, hσ⟩ := copyMap_foldl h ih hd h₀ (List.nil_append _) (copyMap_alloc t n) rfl
    refine ⟨σ, hσn, hσ.congr (fun x => (below_iff_children h).symm) fun {x} _ => ?_⟩
    by_cases hx : x = n
    · rw [kidsUpTo, if_pos hx, hx]
    · rw [kidsUpTo, if_neg hx]

/-! ## Deep clones -/

/-- What a deep clone of `n` promises: a new node numbered with the old size and with no parent,
no old node changed, a map from the subtree of `n` onto the new nodes that copies each node's
content, owner and children in order, and a subtree of the copy made of exactly the new nodes. -/
structure DeepCopy (t : Tree) (n : NodeId) (r : Tree × NodeId) : Prop where
  copy_eq : r.2 = t.size
  parent_copy : r.1.parent r.2 = none
  get_old : ∀ {x}, x < t.size → r.1.get x = t.get x
  copies : ∃ σ, σ n = r.2 ∧ CopyMap t r.1 (ReflTransGen t.ParentOf n) t.children σ
  below_copy : ∀ y, ReflTransGen r.1.ParentOf r.2 y ↔ t.size ≤ y ∧ y < r.1.size

theorem WellFormed.deepCopy_cloneNode (h : t.WellFormed) (n : NodeId) :
    DeepCopy t n (t.cloneNode n true) := by
  have hr := h.cloneWithin n true (t.size + 1)
  obtain ⟨σ, hσn, hσ⟩ := copyMap_cloneWithin (t.size + 1) h (h.depthBelow n)
  refine ⟨hr.copy_eq, hr.parent_copy, hr.get_old, ⟨σ, hσn.trans hr.copy_eq.symm, hσ⟩,
    fun y => ?_⟩
  have hb := hσ.below_image_iff h hr.wellFormed y
  rw [hσn] at hb
  rw [show (t.cloneNode n true).2 = t.size from hr.copy_eq]
  exact hb

/-- A deep clone of any node of a reachable tree is a new node, numbered with the old size and
with no parent, at the root of a copy of the node's subtree: one new node for each node of the
subtree, with the same content (kind, names, namespace, attributes in order, data) and owner,
and the copies of the same children in the same order. No old node changes, and the copy's
subtree holds the new nodes only, so it shares no node with the original's. -/
theorem Reachable.cloneNode_deepCopy (hr : t.Reachable) (n : NodeId) :
    DeepCopy t n (t.cloneNode n true) :=
  hr.wellFormed.deepCopy_cloneNode n

theorem Reachable.cloneNode_deepCopy_root :
    let T := (Op.appendChild 0 1).apply ((Op.createElement 0 "root").apply
      (Op.createDocument.apply Tree.empty))
    T.Reachable ∧ DeepCopy T 1 (T.cloneNode 1 true) := by
  intro T
  refine ⟨?r, Reachable.cloneNode_deepCopy ?r 1⟩
  exact .step _ (.step _ (.step _ .empty trivial) trivial) (by decide)

end Markup.Tree
