import Markup.Proofs.Tree.Insertion

/-!
# Cloning keeps a tree well formed

`cloneNode` copies a node into a fresh node at the end of the arena and, when deep, clones
each child in order and links the child's copy last under the copy. Old nodes are never
touched: every edit lands on a node made during the clone.

The proof is one induction on the fuel. Its step runs the loop over the children with an
invariant on the copy's child list: after a prefix of the children, the copy's children are
the copies of that prefix, of the same kinds. That is what keeps a document's copy within
the document rules, and a copy's children are always fresh, so linking one more never makes a
cycle.
-/

namespace Markup.Tree

open Relation

variable {t : Tree} {n c : NodeId} {r acc : Tree × NodeId}

/-- What a clone of `n` leaves: a well-formed tree, a new parentless node of `n`'s kind, and
every old node as it was. -/
structure Cloned (t : Tree) (n : NodeId) (r : Tree × NodeId) : Prop where
  wellFormed : r.1.WellFormed
  copy_eq : r.2 = t.size
  lt_size : t.size < r.1.size
  parent_copy : r.1.parent r.2 = none
  nodeType_copy : r.1.nodeType r.2 = t.nodeType n
  get_old : ∀ {x}, x < t.size → r.1.get x = t.get x

namespace Cloned

theorem nodeType_old (hr : Cloned t n r) (hx : x < t.size) : r.1.nodeType x = t.nodeType x := by
  simp only [nodeType, hr.get_old hx]

theorem parent_old (hr : Cloned t n r) (hx : x < t.size) : r.1.parent x = t.parent x := by
  simp only [parent, hr.get_old hx]

theorem children_old (hr : Cloned t n r) (hx : x < t.size) : r.1.children x = t.children x := by
  simp only [children, hr.get_old hx]

end Cloned

/-- The copy before any child is cloned. -/
theorem cloned_alloc (h : t.WellFormed) (n : NodeId) :
    Cloned t n (t.alloc (t.get n).content (t.get n).owner) where
  wellFormed := h.alloc _ _ fun e he => by
    have hn : t.element? n = some e := by simp [element?, he]
    exact ⟨h.attr_keys hn, fun _ ha => h.plain_attrs hn ha⟩
  copy_eq := rfl
  lt_size := by simp
  parent_copy := by simp [parent_alloc]
  nodeType_copy := by
    rw [alloc_snd, nodeType_alloc, if_pos rfl]
    rfl
  get_old hx := get_alloc_of_lt _ _ hx

/-- The loop over `n`'s children, after the prefix `P`: the copy's children are clones of
`P`, of the same kinds. -/
structure ClonedUpTo (t : Tree) (n : NodeId) (P : List NodeId) (acc : Tree × NodeId) : Prop
    extends Cloned t n acc where
  children_copy : (acc.1.children acc.2).map acc.1.nodeType = P.map t.nodeType

namespace ClonedUpTo

variable {P : List NodeId}

/-- The copy's children are older than any clone made after them. -/
theorem lt_of_mem_children (hacc : ClonedUpTo t n P acc) (hx : x ∈ acc.1.children acc.2) :
    x < acc.1.size :=
  lt_size_of_parent_eq_some (hacc.wellFormed.mem_children.1 hx)

/-- One turn of the loop: clone the child `c`, then link its copy last under `n`'s copy. -/
theorem link (h : t.WellFormed) (hacc : ClonedUpTo t n P acc) (hc : t.parent c = some n)
    (hP : (P ++ [c]).Sublist (t.children n)) (hr : Cloned acc.1 c r) :
    ClonedUpTo t n (P ++ [c]) (r.1.linkBefore acc.2 r.2 none, acc.2) := by
  have hcopy : acc.2 < acc.1.size := hacc.copy_eq ▸ hacc.lt_size
  have hne : acc.2 ≠ r.2 := by rw [hr.copy_eq]; exact Nat.ne_of_lt hcopy
  have hct : c < t.size := lt_size_of_parent_eq_some hc
  have hpc : r.1.parent acc.2 = none := by rw [hr.parent_old hcopy]; exact hacc.parent_copy
  have htype : r.1.nodeType acc.2 = t.nodeType n := by
    rw [hr.nodeType_old hcopy]; exact hacc.nodeType_copy
  have htype_cc : r.1.nodeType r.2 = t.nodeType c := by
    rw [hr.nodeType_copy, hacc.nodeType_old hct]
  have hkids : r.1.children acc.2 = acc.1.children acc.2 := hr.children_old hcopy
  -- the clone is newer than every child the copy has
  have hfresh : r.2 ∉ acc.1.children acc.2 := fun hm =>
    Nat.lt_irrefl _ (hr.copy_eq ▸ hacc.lt_of_mem_children hm)
  have hmap : ((acc.1.children acc.2) ++ [r.2]).map r.1.nodeType = (P ++ [c]).map t.nodeType := by
    rw [List.map_append, List.map_append, ← hacc.children_copy, List.map_singleton,
      List.map_singleton, htype_cc]
    congr 1
    exact List.map_congr_left fun x hx => hr.nodeType_old (hacc.lt_of_mem_children hx)
  have hs := spliced_detach_linkBefore (t := r.1) (p := acc.2) (m := r.2)
    (Nat.lt_trans hcopy hr.lt_size) (hr.copy_eq ▸ hr.lt_size)
    (fun q hq => by rw [hr.parent_copy] at hq; cases hq)
    (fun q hq => hr.wellFormed.mem_children.1 hq) none
  rw [detach_of_parent_eq_none hr.parent_copy, hkids,
    List.filter_eq_self.2 fun x hx => by simpa using fun hxr : x = r.2 => hfresh (hxr ▸ hx)]
    at hs
  have hwf : (r.1.linkBefore acc.2 r.2 none).WellFormed := by
    refine hr.wellFormed.spliced hs (fun x => ?_) ?_ (fun g hg => by cases hg)
      (fun m hm hmp => ?_) (fun _ => ?_) (fun m hm => ?_) (fun hd => ?_)
    · simp [insertInto, hkids.symm, hr.wellFormed.mem_children, or_comm]
    · exact (hacc.wellFormed.nodup _).append (List.nodup_singleton _)
        (List.disjoint_singleton.2 hfresh)
    · -- the copy has no parent, so nothing is above it
      rw [List.mem_singleton] at hm
      subst hm
      rcases ReflTransGen.cases_tail hmp with heq | ⟨y, -, hy⟩
      · exact hne heq
      · exact absurd hy (by simp [ParentOf, hpc])
    · rw [htype]
      exact h.container hc
    · rw [List.mem_singleton] at hm
      rw [hm, htype_cc]
      exact h.rooted hc
    · rw [insertInto, hmap]
      exact (h.document (htype ▸ hd)).sublist (hP.map _)
  refine ⟨⟨hwf, hacc.copy_eq, by simpa using Nat.lt_trans hacc.lt_size hr.lt_size, ?_, ?_,
    fun {x} hx => ?_⟩, ?_⟩
  · rw [parent_linkBefore _ (hr.copy_eq ▸ hr.lt_size), if_neg hne]
    exact hpc
  · rw [nodeType_linkBefore]
    exact htype
  · have hxa : x < acc.1.size := Nat.lt_trans hx hacc.lt_size
    rw [get_linkBefore_of_ne (by rw [hacc.copy_eq]; exact Nat.ne_of_lt hx)
      (by rw [hr.copy_eq]; exact Nat.ne_of_lt hxa), hr.get_old hxa, hacc.get_old hx]
  · simp only
    rw [children_linkBefore (Nat.lt_trans hcopy hr.lt_size), if_pos rfl, hkids, insertInto,
      ← hmap]
    exact List.map_congr_left fun x _ => nodeType_linkBefore _ _ _ _ _

/-- The whole loop over the children that remain after `P`. -/
theorem foldl (h : t.WellFormed) (hacc : ClonedUpTo t n P acc) (hPR : P ++ R = t.children n)
    (hclone : ∀ s c, s.WellFormed → Cloned s c (s.cloneWithin c true fuel)) :
    ClonedUpTo t n (t.children n) (R.foldl (fun acc c =>
      let (s, cc) := acc.1.cloneWithin c true fuel
      (s.linkBefore t.size cc none, t.size)) acc) := by
  induction R generalizing P acc with
  | nil => simpa [← hPR] using hacc
  | cons c R ih =>
    have hc : t.parent c = some n := h.mem_children.1 (by simp [← hPR])
    have hP : (P ++ [c]).Sublist (t.children n) := by
      rw [← hPR, show P ++ c :: R = (P ++ [c]) ++ R by simp]
      exact List.sublist_append_left _ _
    have hstep := hacc.link h hc hP (hclone _ c hacc.wellFormed)
    rw [hacc.copy_eq] at hstep
    exact ih hstep (by simp [← hPR])

end ClonedUpTo

/-- Every clone of a well-formed tree is well formed, with a fresh parentless copy. -/
theorem WellFormed.cloneWithin (h : t.WellFormed) (n : NodeId) (deep : Bool) (fuel : Nat) :
    Cloned t n (t.cloneWithin n deep fuel) := by
  induction fuel generalizing t n deep with
  | zero => exact cloned_alloc h n
  | succ fuel ih =>
    cases deep with
    | false => exact cloned_alloc h n
    | true =>
      have h₀ : ClonedUpTo t n [] (t.alloc (t.get n).content (t.get n).owner) :=
        ⟨cloned_alloc h n, by simp [children_alloc]⟩
      exact (h₀.foldl h (List.nil_append _) fun s c hs => ih hs c true).toCloned

theorem WellFormed.cloneNode (h : t.WellFormed) (n : NodeId) (deep : Bool) :
    (t.cloneNode n deep).1.WellFormed :=
  (h.cloneWithin n deep _).wellFormed

end Markup.Tree
