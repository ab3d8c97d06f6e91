import Markup.Proofs.Tree.Insertion
import Markup.Tree.Linked

/-!
# The child lists are a view of the links

A tree with child lists gives every node the four links the arena stores: first and last
child from the head and end of its list, and the siblings around it in its parent's list.
This file proves that `detach` and `linkBefore` change those derived links exactly as the
arena's code rewrites its stored ones, so an arena whose links are the derived ones of a tree
keeps that relation, `Represents`, through every step of an insertion.
-/

namespace Markup.Tree

open Relation

variable {t t' : Tree} {A B R : List NodeId} {a m n p : NodeId} {ref : Option NodeId}

/-! ## Siblings in a list -/

@[simp] theorem after?_nil (m : NodeId) : after? [] m = none := rfl

@[simp] theorem before?_nil (m : NodeId) : before? [] m = none := rfl

@[simp] theorem after?_cons (a : NodeId) (l : List NodeId) (m : NodeId) :
    after? (a :: l) m = if a = m then l.head? else after? l m := by
  cases l with
  | nil => by_cases h : a = m <;> simp [after?, h]
  | cons b l => simp [after?]

@[simp] theorem before?_cons (a : NodeId) (l : List NodeId) (m : NodeId) :
    before? (a :: l) m = if l.head? = some m then some a else before? l m := by
  cases l with
  | nil => rfl
  | cons b l => simp [before?]

/-- Putting `n` into a list right after `A` gives the last node of `A` a new next sibling, and
leaves every other node's but `n`'s own. -/
theorem after?_insert (hnd : (A ++ n :: B).Nodup) (hm : m ≠ n) :
    after? (A ++ n :: B) m = if A.getLast? = some m then some n else after? (A ++ B) m := by
  induction A with
  | nil => simp [Ne.symm hm]
  | cons a A ih =>
    have hnd' : (A ++ n :: B).Nodup := (List.nodup_cons.1 hnd).2
    have ha : a ∉ A := fun h => (List.nodup_cons.1 hnd).1 (List.mem_append_left _ h)
    rw [List.cons_append, List.cons_append, after?_cons, after?_cons, ih hnd']
    by_cases ham : a = m
    · subst ham
      cases A with
      | nil => simp
      | cons b A =>
        have hlast : (b :: A).getLast? ≠ some a := fun h => ha (List.mem_of_getLast? h)
        simp [List.getLast?_cons_cons, hlast]
    · cases A with
      | nil => simp [ham]
      | cons b A => simp [ham, List.getLast?_cons_cons]

/-- Putting `n` into a list right before `B` gives the first node of `B` a new previous
sibling, and leaves every other node's but `n`'s own. -/
theorem before?_insert (hnd : (A ++ n :: B).Nodup) (hm : m ≠ n) :
    before? (A ++ n :: B) m = if B.head? = some m then some n else before? (A ++ B) m := by
  induction A with
  | nil => simp
  | cons a A ih =>
    have hnd' : (A ++ n :: B).Nodup := (List.nodup_cons.1 hnd).2
    rw [List.cons_append, before?_cons, ih hnd', List.cons_append, before?_cons]
    cases A with
    | nil => by_cases hB : B.head? = some m <;> simp [hB, Ne.symm hm]
    | cons b A =>
      -- `b` comes before `n`, so it cannot also head `B`
      have hbB : B.head? ≠ some b := fun h =>
        (List.nodup_append.1 hnd').2.2 b (by simp) b (by simp [List.mem_of_mem_head? h]) rfl
      by_cases hbm : b = m
      · subst hbm
        simp [hbB]
      · simp [hbm]

theorem after?_of_getLast? (hnd : (A ++ B).Nodup) (ha : A.getLast? = some a) :
    after? (A ++ B) a = B.head? := by
  obtain ⟨A', rfl⟩ := List.getLast?_eq_some_iff.1 ha
  rw [List.append_assoc, List.singleton_append] at hnd ⊢
  exact after?_eq hnd

theorem before?_of_head? (hnd : (A ++ B).Nodup) (hb : B.head? = some a) :
    before? (A ++ B) a = A.getLast? := by
  obtain ⟨B', rfl⟩ := List.head?_eq_some_iff.1 hb
  exact before?_eq hnd

theorem mem_of_after?_eq_some {l : List NodeId} (h : after? l m = some b) : b ∈ l := by
  induction l with
  | nil => cases h
  | cons x l ih =>
    rw [after?_cons] at h
    split at h
    · exact List.mem_cons_of_mem _ (List.mem_of_mem_head? h)
    · exact List.mem_cons_of_mem _ (ih h)

theorem mem_of_before?_eq_some {l : List NodeId} (h : before? l m = some a) : a ∈ l := by
  induction l with
  | nil => cases h
  | cons x l ih =>
    rw [before?_cons] at h
    split at h
    · cases h
      exact List.mem_cons_self
    · exact List.mem_cons_of_mem _ (ih h)

theorem after?_eq_none {l : List NodeId} (h : m ∉ l) : after? l m = none := by
  induction l with
  | nil => rfl
  | cons x l ih =>
    have hx : x ≠ m := fun hx => h (hx ▸ List.mem_cons_self)
    rw [after?_cons, if_neg hx, ih fun hm => h (List.mem_cons_of_mem _ hm)]

/-- In a list without repeats, the sibling before a node is the one after it in the reversed
list. -/
theorem before?_eq_after?_reverse {l : List NodeId} (hnd : l.Nodup) (m : NodeId) :
    before? l m = after? l.reverse m := by
  by_cases hm : m ∈ l
  · obtain ⟨A, B, rfl⟩ := List.append_of_mem hm
    have hnd' : (B.reverse ++ m :: A.reverse).Nodup := by
      have := List.nodup_reverse.2 hnd
      rwa [List.reverse_append, List.reverse_cons, List.append_assoc, List.singleton_append]
        at this
    rw [before?_eq hnd, List.reverse_append, List.reverse_cons, List.append_assoc,
      List.singleton_append, after?_eq hnd', List.head?_reverse]
  · rw [before?_eq_none fun h => hm (List.mem_of_mem_tail h),
      after?_eq_none fun h => hm (List.mem_reverse.1 h)]

/-- Linking into a list before a member, or at the end, puts the node right at the cut. -/
theorem insertInto_cut (hrA : ∀ r, R.head? = some r → r ∉ A) (hR : ref = R.head?) :
    insertInto (A ++ R) n ref = A ++ n :: R := by
  rw [insertInto_eq_placeBefore, placeBefore_append (fun r hr => hrA r (hR ▸ hr)),
    placeBefore_of_takeWhile (by rw [hR]; exact takeWhile_head? R)]
  rfl

/-! ## Consistent trees -/

/-- The child lists and the parent links describe the same edges, and no child list repeats a
node: all that the sibling links of a tree rely on. -/
structure Consistent (t : Tree) : Prop where
  mem_children : ∀ {p c}, c ∈ t.children p ↔ t.parent c = some p
  nodup : ∀ p, (t.children p).Nodup

theorem WellFormed.consistent (h : t.WellFormed) : t.Consistent := ⟨h.mem_children, h.nodup⟩

/-- The node that one linked under `p` before `ref` comes after. -/
def prevOf (t : Tree) (p : NodeId) : Option NodeId → Option NodeId
  | some r => t.prevSibling r
  | none => t.lastChild p

/-- Sibling links of a node outside `p`'s list see neither `p`'s list nor a change of it. -/
theorem nextSibling_congr (hq : ∀ q, q ≠ p → t'.children q = t.children q)
    (hpar : t'.parent m = t.parent m) (hm : t.parent m ≠ some p) :
    t'.nextSibling m = t.nextSibling m := by
  unfold nextSibling
  rw [hpar]
  cases hpm : t.parent m with
  | none => rfl
  | some q => simp only [hq q fun h => hm (h ▸ hpm)]

theorem prevSibling_congr (hq : ∀ q, q ≠ p → t'.children q = t.children q)
    (hpar : t'.parent m = t.parent m) (hm : t.parent m ≠ some p) :
    t'.prevSibling m = t.prevSibling m := by
  unfold prevSibling
  rw [hpar]
  cases hpm : t.parent m with
  | none => rfl
  | some q => simp only [hq q fun h => hm (h ▸ hpm)]

namespace Consistent

theorem lt_size_of_mem (hc : t.Consistent) (hx : x ∈ t.children p) : x < t.size :=
  lt_size_of_parent_eq_some (hc.mem_children.1 hx)

theorem nextSibling_eq (hc : t.Consistent) (hx : t.parent x = some p)
    (hL : t.children p = A ++ x :: B) : t.nextSibling x = B.head? := by
  have hnd := hc.nodup p
  rw [hL] at hnd
  simp only [nextSibling, hx]
  rw [hL, after?_eq hnd]

theorem prevSibling_eq (hc : t.Consistent) (hx : t.parent x = some p)
    (hL : t.children p = A ++ x :: B) : t.prevSibling x = A.getLast? := by
  have hnd := hc.nodup p
  rw [hL] at hnd
  simp only [prevSibling, hx]
  rw [hL, before?_eq hnd]

/-- The parent of a node in `p`'s list, seen from a sibling link into it. -/
theorem parent_of_mem_sub (hc : t.Consistent) (hL : t.children p = A ++ B) {x : NodeId}
    (hx : x ∈ A ∨ x ∈ B) : t.parent x = some p :=
  hc.mem_children.1 (by rw [hL]; exact List.mem_append.2 hx)

theorem detach (hc : t.Consistent) (n : NodeId) : (t.detach n).Consistent := by
  refine ⟨fun {q x} => ?_, fun q => ?_⟩
  · rw [children_detach, parent_detach]
    split
    · next hq =>
      rw [(hc.nodup q).mem_erase_iff, hc.mem_children]
      by_cases hx : x = n <;> simp [hx, hq]
    · next hq =>
      by_cases hx : x = n
      · subst hx
        simp only [if_true, reduceCtorEq, iff_false]
        exact fun h => hq (hc.mem_children.1 h)
      · rw [if_neg hx, hc.mem_children]
  · rw [children_detach]
    split
    · exact (hc.nodup q).erase n
    · exact hc.nodup q

theorem linkBefore (hc : t.Consistent) (hn : t.parent n = none) (hnl : n < t.size)
    (hp : p < t.size) (ref : Option NodeId) : (t.linkBefore p n ref).Consistent := by
  have hnL : ∀ q, n ∉ t.children q := fun q h => by
    rw [hc.mem_children, hn] at h
    cases h
  have hins : ∀ x, x ∈ insertInto (t.children p) n ref ↔ x = n ∨ x ∈ t.children p := by
    intro x
    cases ref with
    | none => simp [insertInto, or_comm]
    | some r =>
      rw [insertInto_eq_placeBefore, placeBefore]
      conv_rhs => rw [← List.takeWhile_append_dropWhile (p := (some · ≠ some r))
        (l := t.children p)]
      simp only [List.mem_append, List.mem_singleton]
      tauto
  refine ⟨fun {q x} => ?_, fun q => ?_⟩
  · rw [children_linkBefore hp, parent_linkBefore p hnl]
    split
    · next hq =>
      subst hq
      rw [hins, hc.mem_children]
      by_cases hx : x = n
      · simp [hx]
      · simp [hx]
    · next hq =>
      by_cases hx : x = n
      · subst hx
        simp only [if_true, Option.some.injEq]
        exact ⟨fun h => absurd h (hnL q), fun h => absurd h.symm hq⟩
      · rw [if_neg hx, hc.mem_children]
  · rw [children_linkBefore hp]
    split
    · next hq =>
      subst hq
      have hperm : (insertInto (t.children q) n ref).Perm (n :: t.children q) := by
        cases ref with
        | none => exact List.perm_append_singleton n _
        | some r =>
          rw [insertInto]
          conv_rhs => rw [← List.take_append_drop ((t.children q).idxOf r) (t.children q)]
          exact List.perm_middle
      exact hperm.nodup_iff.2 (List.nodup_cons.2 ⟨hnL q, hc.nodup q⟩)
    · exact hc.nodup q

/-- The node a node is linked after, in a list cut where the reference stands. -/
theorem prevOf_eq (hc : t.Consistent) (hL : t.children p = A ++ R) (hR : ref = R.head?)
    (hrA : ∀ r, R.head? = some r → r ∉ A) (hpar : ∀ r, ref = some r → t.parent r = some p) :
    t.prevOf p ref = A.getLast? := by
  cases R with
  | nil =>
    subst hR
    simp [prevOf, lastChild, hL]
  | cons r B =>
    subst hR
    exact hc.prevSibling_eq (hpar r rfl) hL

/-- A reference that is none or a child of `p` cuts `p`'s list. -/
theorem exists_cut (hc : t.Consistent) (hpar : ∀ r, ref = some r → t.parent r = some p) :
    ∃ A R, t.children p = A ++ R ∧ ref = R.head? ∧ ∀ r, R.head? = some r → r ∉ A := by
  cases ref with
  | none => exact ⟨t.children p, [], by simp, rfl, fun r hr => by cases hr⟩
  | some r =>
    obtain ⟨B, hL, -⟩ := split_at (hc.mem_children.2 (hpar r rfl))
    refine ⟨_, r :: B, hL, rfl, fun r' hr' hm => ?_⟩
    cases hr'
    simpa using List.mem_takeWhile_imp hm

theorem lt_size_of_nextSibling (hc : t.Consistent) (h : t.nextSibling n = some b) :
    b < t.size := by
  unfold nextSibling at h
  split at h
  · exact hc.lt_size_of_mem (mem_of_after?_eq_some h)
  · cases h

theorem lt_size_of_prevSibling (hc : t.Consistent) (h : t.prevSibling n = some a) :
    a < t.size := by
  unfold prevSibling at h
  split at h
  · exact hc.lt_size_of_mem (mem_of_before?_eq_some h)
  · cases h

theorem lt_size_of_prevOf (hc : t.Consistent) (h : t.prevOf p ref = some a) : a < t.size := by
  cases ref with
  | some r => exact hc.lt_size_of_prevSibling h
  | none => exact hc.lt_size_of_mem (List.mem_of_getLast? h)

theorem length_children_le (hc : t.Consistent) (p : NodeId) : (t.children p).length ≤ t.size := by
  have hsub : t.children p ⊆ List.range t.size := fun x hx =>
    List.mem_range.2 (hc.lt_size_of_mem hx)
  simpa using ((hc.nodup p).subperm hsub).length_le

end Consistent

/-- A new node is nobody's child and has no children, as every missing node reads. -/
theorem parent_alloc_eq (t : Tree) (c : Content) (o : Option NodeId) (m : NodeId) :
    (t.alloc c o).1.parent m = t.parent m := by
  rw [parent_alloc]
  split
  · next hm => rw [hm, parent_of_size_le le_rfl]
  · rfl

theorem children_alloc_eq (t : Tree) (c : Content) (o : Option NodeId) (m : NodeId) :
    (t.alloc c o).1.children m = t.children m := by
  rw [children_alloc]
  split
  · next hm => rw [hm, children_of_size_le le_rfl]
  · rfl

/-- Two trees with the same node at every number are the same tree. -/
theorem ext_get {u : Tree} (hs : t.size = u.size) (h : ∀ n, t.get n = u.get n) : t = u := by
  obtain ⟨nodes⟩ := t
  obtain ⟨nodes'⟩ := u
  congr 1
  refine Array.ext hs fun i hi hi' => ?_
  have := h i
  simp only [Tree.get, Array.getD_eq_getD_getElem?, Array.getElem?_eq_getElem hi,
    Array.getElem?_eq_getElem hi'] at this
  exact this

/-! ## How detaching changes the derived links -/

section detach

variable (hc : t.Consistent) (hpar : t.parent n = some p)

include hpar in
theorem detach_children_other (hq : q ≠ p) : (t.detach n).children q = t.children q := by
  rw [children_detach, if_neg (by rw [hpar]; simpa using Ne.symm hq)]

include hc hpar in
theorem detach_children_self (hL : t.children p = A ++ n :: B) :
    (t.detach n).children p = A ++ B := by
  have hnd := hc.nodup p
  rw [hL, List.nodup_append] at hnd
  rw [children_detach, if_pos hpar, hL, List.erase_append_right _ fun h => hnd.2.2 n h n (by simp) rfl,
    List.erase_cons_head]

include hc hpar in
theorem detach_firstChild (m : NodeId) : (t.detach n).firstChild m =
    if m = p ∧ t.prevSibling n = none then t.nextSibling n else t.firstChild m := by
  obtain ⟨A, B, hL⟩ := List.append_of_mem (hc.mem_children.2 hpar)
  rw [hc.prevSibling_eq hpar hL, hc.nextSibling_eq hpar hL]
  by_cases hm : m = p
  · subst hm
    simp only [firstChild, detach_children_self hc hpar hL, hL, true_and]
    cases A <;> simp
  · simp [firstChild, detach_children_other hpar hm, hm]

include hc hpar in
theorem detach_lastChild (m : NodeId) : (t.detach n).lastChild m =
    if m = p ∧ t.nextSibling n = none then t.prevSibling n else t.lastChild m := by
  obtain ⟨A, B, hL⟩ := List.append_of_mem (hc.mem_children.2 hpar)
  rw [hc.prevSibling_eq hpar hL, hc.nextSibling_eq hpar hL]
  by_cases hm : m = p
  · subst hm
    simp only [lastChild, detach_children_self hc hpar hL, hL, true_and]
    cases B <;> simp
  · simp [lastChild, detach_children_other hpar hm, hm]

include hc hpar in
theorem detach_nextSibling (m : NodeId) : (t.detach n).nextSibling m =
    if m = n then none else if t.prevSibling n = some m then t.nextSibling n
    else t.nextSibling m := by
  obtain ⟨A, B, hL⟩ := List.append_of_mem (hc.mem_children.2 hpar)
  have hnd := hc.nodup p
  rw [hL] at hnd
  rw [hc.prevSibling_eq hpar hL, hc.nextSibling_eq hpar hL]
  by_cases hmn : m = n
  · subst hmn
    simp [nextSibling, parent_detach]
  rw [if_neg hmn]
  by_cases hmp : t.parent m = some p
  · -- `m` stays in `p`'s list, which loses `n`
    have hnd' : (A ++ B).Nodup := hnd.sublist (by simp)
    simp only [nextSibling, parent_detach, if_neg hmn, hmp, detach_children_self hc hpar hL, hL,
      after?_insert hnd hmn]
    split
    · next hA => exact after?_of_getLast? hnd' hA
    · rfl
  · -- the sibling before `n` is in `p`'s list, so it is not `m`
    have hA : A.getLast? ≠ some m := fun h =>
      hmp (hc.parent_of_mem_sub (B := n :: B) hL (.inl (List.mem_of_getLast? h)))
    rw [if_neg hA]
    exact nextSibling_congr (fun q hq => detach_children_other hpar hq)
      (by rw [parent_detach, if_neg hmn]) hmp

include hc hpar in
theorem detach_prevSibling (m : NodeId) : (t.detach n).prevSibling m =
    if m = n then none else if t.nextSibling n = some m then t.prevSibling n
    else t.prevSibling m := by
  obtain ⟨A, B, hL⟩ := List.append_of_mem (hc.mem_children.2 hpar)
  have hnd := hc.nodup p
  rw [hL] at hnd
  rw [hc.prevSibling_eq hpar hL, hc.nextSibling_eq hpar hL]
  by_cases hmn : m = n
  · subst hmn
    simp [prevSibling, parent_detach]
  rw [if_neg hmn]
  by_cases hmp : t.parent m = some p
  · have hnd' : (A ++ B).Nodup := hnd.sublist (by simp)
    simp only [prevSibling, parent_detach, if_neg hmn, hmp, detach_children_self hc hpar hL, hL,
      before?_insert hnd hmn]
    split
    · next hB => exact before?_of_head? hnd' hB
    · rfl
  · have hB : B.head? ≠ some m := fun h =>
      hmp (hc.parent_of_mem_sub (A := A ++ [n]) (by simpa using hL)
        (.inr (List.mem_of_mem_head? h)))
    rw [if_neg hB]
    exact prevSibling_congr (fun q hq => detach_children_other hpar hq)
      (by rw [parent_detach, if_neg hmn]) hmp

end detach

/-! ## How linking changes the derived links -/

section linkBefore

variable (hc : t.Consistent) (hn : t.parent n = none) (hnl : n < t.size) (hp : p < t.size)
  (href : ∀ r, ref = some r → t.parent r = some p)

include hp in
theorem linkBefore_children_other (hq : q ≠ p) : (t.linkBefore p n ref).children q = t.children q := by
  rw [children_linkBefore hp, if_neg hq]

include hp in
theorem linkBefore_children_self (hL : t.children p = A ++ R) (hR : ref = R.head?)
    (hrA : ∀ r, R.head? = some r → r ∉ A) : (t.linkBefore p n ref).children p = A ++ n :: R := by
  rw [children_linkBefore hp, if_pos rfl, hL, insertInto_cut hrA hR]

include hc hp href in
theorem linkBefore_firstChild (m : NodeId) : (t.linkBefore p n ref).firstChild m =
    if m = p ∧ t.prevOf p ref = none then some n else t.firstChild m := by
  obtain ⟨A, R, hL, hR, hrA⟩ := hc.exists_cut href
  rw [hc.prevOf_eq hL hR hrA href]
  by_cases hm : m = p
  · subst hm
    simp only [firstChild, linkBefore_children_self hp hL hR hrA, hL, true_and]
    cases A <;> simp
  · simp [firstChild, linkBefore_children_other hp hm, hm]

include hc hp href in
theorem linkBefore_lastChild (m : NodeId) : (t.linkBefore p n ref).lastChild m =
    if m = p ∧ ref = none then some n else t.lastChild m := by
  obtain ⟨A, R, hL, hR, hrA⟩ := hc.exists_cut href
  by_cases hm : m = p
  · subst hm
    simp only [lastChild, linkBefore_children_self hp hL hR hrA, hL, true_and]
    subst hR
    cases R <;> simp
  · simp [lastChild, linkBefore_children_other hp hm, hm]

include hc hn hnl hp href in
theorem linkBefore_nextSibling (m : NodeId) : (t.linkBefore p n ref).nextSibling m =
    if t.prevOf p ref = some m then some n else if m = n then ref else t.nextSibling m := by
  obtain ⟨A, R, hL, hR, hrA⟩ := hc.exists_cut href
  have hnd : (A ++ n :: R).Nodup := by
    rw [← linkBefore_children_self hp hL hR hrA]
    exact (hc.linkBefore hn hnl hp ref).nodup p
  rw [hc.prevOf_eq hL hR hrA href]
  by_cases hmp : t.parent m = some p
  · -- `m` is in `p`'s list, so it is not the detached `n`
    have hmn : m ≠ n := by
      rintro rfl
      rw [hn] at hmp
      cases hmp
    simp only [nextSibling, parent_linkBefore p hnl, if_neg hmn, hmp,
      linkBefore_children_self hp hL hR hrA, hL, after?_insert hnd hmn]
  · have hA : A.getLast? ≠ some m := fun h =>
      hmp (hc.parent_of_mem_sub hL (.inl (List.mem_of_getLast? h)))
    rw [if_neg hA]
    by_cases hmn : m = n
    · subst hmn
      simp only [nextSibling, parent_linkBefore p hnl, if_true,
        linkBefore_children_self hp hL hR hrA]
      rw [after?_eq hnd, hR]
    · rw [if_neg hmn]
      exact nextSibling_congr (fun q hq => linkBefore_children_other hp hq)
        (by rw [parent_linkBefore p hnl, if_neg hmn]) hmp

include hc hn hnl hp href in
theorem linkBefore_prevSibling (m : NodeId) : (t.linkBefore p n ref).prevSibling m =
    if ref = some m then some n else if m = n then t.prevOf p ref else t.prevSibling m := by
  obtain ⟨A, R, hL, hR, hrA⟩ := hc.exists_cut href
  have hnd : (A ++ n :: R).Nodup := by
    rw [← linkBefore_children_self hp hL hR hrA]
    exact (hc.linkBefore hn hnl hp ref).nodup p
  rw [hc.prevOf_eq hL hR hrA href]
  by_cases hmp : t.parent m = some p
  · have hmn : m ≠ n := by
      rintro rfl
      rw [hn] at hmp
      cases hmp
    simp only [prevSibling, parent_linkBefore p hnl, if_neg hmn, hmp,
      linkBefore_children_self hp hL hR hrA, hL, before?_insert hnd hmn]
    rw [hR]
  · have href' : ref ≠ some m := fun h => hmp (href m h)
    rw [if_neg href']
    by_cases hmn : m = n
    · subst hmn
      simp only [prevSibling, parent_linkBefore p hnl, if_true,
        linkBefore_children_self hp hL hR hrA, before?_eq hnd]
    · rw [if_neg hmn]
      exact prevSibling_congr (fun q hq => linkBefore_children_other hp hq)
        (by rw [parent_linkBefore p hnl, if_neg hmn]) hmp

end linkBefore

end Markup.Tree

namespace Markup.LinkTree

variable {L : LinkTree} {n m p : NodeId} {ref : Option NodeId}

/-! ## Reading the arena after an edit -/

theorem get_of_size_le (h : L.size ≤ n) : L.get n = LinkNode.placeholder := by
  simp only [LinkTree.get, Array.getD_eq_getD_getElem?]
  rw [Array.getElem?_eq_none h]
  rfl

theorem lt_size_of_parent_eq_some (h : L.parent n = some p) : n < L.size := by
  rcases Nat.lt_or_ge n L.size with hn | hn
  · exact hn
  · rw [parent, get_of_size_le hn] at h
    cases h

@[simp] theorem size_modify (L : LinkTree) (n : NodeId) (f : LinkNode → LinkNode) :
    (L.modify n f).size = L.size := by
  simp [LinkTree.modify, LinkTree.size]

theorem get_modify (L : LinkTree) (n m : NodeId) (f : LinkNode → LinkNode) :
    (L.modify n f).get m = if n = m ∧ m < L.size then f (L.get m) else L.get m := by
  simp only [LinkTree.modify, LinkTree.get, LinkTree.size, Array.getD_eq_getD_getElem?,
    Array.getElem?_modify]
  by_cases h : m < L.nodes.size
  · simp only [h, and_true, Array.getElem?_eq_getElem h]
    split <;> rfl
  · simp [h]

/-- A field read after changing one existing node. -/
theorem read_modify {α : Type} (g : LinkNode → α) (hn : n < L.size) (f : LinkNode → LinkNode)
    (m : NodeId) : g ((L.modify n f).get m) = if n = m then g (f (L.get m)) else g (L.get m) := by
  rw [get_modify]
  by_cases h : n = m
  · subst h
    simp [hn]
  · simp [h]

/-- A field that a change leaves alone reads the same after it. -/
theorem read_modify_of {α : Type} (g : LinkNode → α) (f : LinkNode → LinkNode)
    (hg : ∀ d, g (f d) = g d) (n m : NodeId) : g ((L.modify n f).get m) = g (L.get m) := by
  rw [get_modify]
  split <;> simp [hg]

@[simp] theorem size_alloc (L : LinkTree) (c : Content) (o : Option NodeId) :
    (L.alloc c o).1.size = L.size + 1 := by
  simp [LinkTree.alloc, LinkTree.size]

@[simp] theorem alloc_snd (L : LinkTree) (c : Content) (o : Option NodeId) :
    (L.alloc c o).2 = L.size :=
  rfl

theorem get_alloc (L : LinkTree) (c : Content) (o : Option NodeId) (m : NodeId) :
    (L.alloc c o).1.get m =
      if m = L.size then ⟨c, o, none, none, none, none, none⟩ else L.get m := by
  simp only [LinkTree.alloc, LinkTree.get, LinkTree.size, Array.getD_eq_getD_getElem?,
    Array.getElem?_push]
  split <;> simp_all

/-! ## Detaching -/

theorem detach_of_parent_eq_none (h : L.parent n = none) : L.detach n = L := by
  simp only [detach, h]

@[simp] theorem size_detach (L : LinkTree) (n : NodeId) : (L.detach n).size = L.size := by
  unfold detach
  split
  · rfl
  · dsimp only
    split <;> split <;> simp

theorem content_detach (L : LinkTree) (n m : NodeId) :
    ((L.detach n).get m).content = (L.get m).content := by
  unfold detach
  split
  · rfl
  · dsimp only
    split <;> split <;> simp [read_modify_of LinkNode.content]

theorem owner_detach (L : LinkTree) (n m : NodeId) :
    ((L.detach n).get m).owner = (L.get m).owner := by
  unfold detach
  split
  · rfl
  · dsimp only
    split <;> split <;> simp [read_modify_of LinkNode.owner]

theorem parent_detach (L : LinkTree) (n m : NodeId) :
    (L.detach n).parent m = if m = n then none else L.parent m := by
  unfold detach
  split
  · next h =>
    split
    · next hm => rw [hm, h]
    · rfl
  · next p h =>
    have hn := lt_size_of_parent_eq_some h
    dsimp only
    split <;> split <;>
      simp [parent, read_modify_of LinkNode.parent, read_modify LinkNode.parent, hn] <;>
      split_ifs <;> subst_vars <;> simp_all

section detach

variable (hn : L.parent n = some p)

include hn in
theorem detach_firstChild (hp : p < L.size) (m : NodeId) : (L.detach n).firstChild m =
    if m = p ∧ L.prevSibling n = none then L.nextSibling n else L.firstChild m := by
  unfold detach
  rw [hn]
  dsimp only
  cases hpv : L.prevSibling n <;> cases hnx : L.nextSibling n <;>
    simp [firstChild, read_modify_of LinkNode.firstChild, read_modify LinkNode.firstChild, hp] <;>
    split_ifs <;> subst_vars <;> simp_all

include hn in
theorem detach_lastChild (hp : p < L.size) (m : NodeId) : (L.detach n).lastChild m =
    if m = p ∧ L.nextSibling n = none then L.prevSibling n else L.lastChild m := by
  unfold detach
  rw [hn]
  dsimp only
  cases hpv : L.prevSibling n <;> cases hnx : L.nextSibling n <;>
    simp [lastChild, read_modify_of LinkNode.lastChild, read_modify LinkNode.lastChild, hp] <;>
    split_ifs <;> subst_vars <;> simp_all

include hn in
theorem detach_nextSibling (ha : ∀ a, L.prevSibling n = some a → a < L.size) (m : NodeId) :
    (L.detach n).nextSibling m = if m = n then none
      else if L.prevSibling n = some m then L.nextSibling n else L.nextSibling m := by
  have hnl := lt_size_of_parent_eq_some hn
  unfold detach
  rw [hn]
  dsimp only
  cases hpv : L.prevSibling n <;> cases hnx : L.nextSibling n <;>
    simp [nextSibling, read_modify_of LinkNode.nextSibling, read_modify LinkNode.nextSibling, hnl,
      ha, hpv] <;>
    split_ifs <;> subst_vars <;> simp_all

include hn in
theorem detach_prevSibling (hb : ∀ b, L.nextSibling n = some b → b < L.size) (m : NodeId) :
    (L.detach n).prevSibling m = if m = n then none
      else if L.nextSibling n = some m then L.prevSibling n else L.prevSibling m := by
  have hnl := lt_size_of_parent_eq_some hn
  unfold detach
  rw [hn]
  dsimp only
  cases hpv : L.prevSibling n <;> cases hnx : L.nextSibling n <;>
    simp [prevSibling, read_modify_of LinkNode.prevSibling, read_modify LinkNode.prevSibling, hnl,
      hb, hnx] <;>
    split_ifs <;> subst_vars <;> simp_all

end detach

/-! ## Linking -/

@[simp] theorem size_linkBefore (L : LinkTree) (p n : NodeId) (ref : Option NodeId) :
    (L.linkBefore p n ref).size = L.size := by
  unfold linkBefore
  dsimp only
  split <;> split <;> simp

theorem content_linkBefore (L : LinkTree) (p n : NodeId) (ref : Option NodeId) (m : NodeId) :
    ((L.linkBefore p n ref).get m).content = (L.get m).content := by
  unfold linkBefore
  dsimp only
  split <;> split <;> simp [read_modify_of LinkNode.content]

theorem owner_linkBefore (L : LinkTree) (p n : NodeId) (ref : Option NodeId) (m : NodeId) :
    ((L.linkBefore p n ref).get m).owner = (L.get m).owner := by
  unfold linkBefore
  dsimp only
  split <;> split <;> simp [read_modify_of LinkNode.owner]

theorem parent_linkBefore (hn : n < L.size) (m : NodeId) :
    (L.linkBefore p n ref).parent m = if m = n then some p else L.parent m := by
  unfold linkBefore
  dsimp only
  split <;> split <;>
    simp [parent, read_modify_of LinkNode.parent, read_modify LinkNode.parent, hn] <;>
    split_ifs <;> subst_vars <;> simp_all

theorem linkBefore_firstChild (hp : p < L.size) (m : NodeId) : (L.linkBefore p n ref).firstChild m =
    if m = p ∧ L.prevOf p ref = none then some n else L.firstChild m := by
  unfold linkBefore
  dsimp only
  cases hpv : L.prevOf p ref <;> cases ref <;>
    simp [firstChild, read_modify_of LinkNode.firstChild, read_modify LinkNode.firstChild, hp] <;>
    split_ifs <;> subst_vars <;> simp_all

theorem linkBefore_lastChild (hp : p < L.size) (m : NodeId) : (L.linkBefore p n ref).lastChild m =
    if m = p ∧ ref = none then some n else L.lastChild m := by
  unfold linkBefore
  dsimp only
  cases hpv : L.prevOf p ref <;> cases ref <;>
    simp [lastChild, read_modify_of LinkNode.lastChild, read_modify LinkNode.lastChild, hp] <;>
    split_ifs <;> subst_vars <;> simp_all

theorem linkBefore_nextSibling (hn : n < L.size) (ha : ∀ a, L.prevOf p ref = some a → a < L.size)
    (m : NodeId) : (L.linkBefore p n ref).nextSibling m =
      if L.prevOf p ref = some m then some n else if m = n then ref else L.nextSibling m := by
  unfold linkBefore
  dsimp only
  cases hpv : L.prevOf p ref <;> cases ref <;>
    simp [nextSibling, read_modify_of LinkNode.nextSibling, read_modify LinkNode.nextSibling, hn,
      ha, hpv] <;>
    split_ifs <;> subst_vars <;> simp_all

theorem linkBefore_prevSibling (hn : n < L.size) (hr : ∀ r, ref = some r → r < L.size)
    (m : NodeId) : (L.linkBefore p n ref).prevSibling m =
      if ref = some m then some n else if m = n then L.prevOf p ref else L.prevSibling m := by
  unfold linkBefore
  dsimp only
  cases hpv : L.prevOf p ref <;> cases ref <;>
    simp [prevSibling, read_modify_of LinkNode.prevSibling, read_modify LinkNode.prevSibling, hn,
      hr] <;>
    split_ifs <;> subst_vars <;> simp_all

/-- Changing an element's data leaves every link and owner alone. -/
theorem read_modifyElement {α : Type} (g : LinkNode → α)
    (hg : ∀ d (c : Content), g { d with content := c } = g d) (n : NodeId) (f : Element → Element)
    (m : NodeId) : g ((L.modifyElement n f).get m) = g (L.get m) := by
  refine read_modify_of g _ (fun d => ?_) n m
  split
  · exact hg d _
  · rfl

theorem content_modifyElement (L : LinkTree) (n : NodeId) (f : Element → Element) (m : NodeId) :
    ((L.modifyElement n f).get m).content =
      if m = n then
        (match (L.get m).content with
          | .element e => .element (f e)
          | c => c)
      else (L.get m).content := by
  simp only [modifyElement, get_modify]
  by_cases hm : m = n
  · subst hm
    by_cases hs : m < L.size
    · simp only [hs, and_self, if_true]
      split <;> simp_all
    · simp only [hs, and_false, if_false, if_true, get_of_size_le (Nat.le_of_not_lt hs)]
      rfl
  · simp [hm, Ne.symm hm]

/-! ## Following links -/

/-- `xs` is what following `next` from `start` visits, in order, until the links run out. -/
inductive Chain (next : NodeId → Option NodeId) : Option NodeId → List NodeId → Prop
  | nil : Chain next none []
  | cons {x : NodeId} {xs : List NodeId} : Chain next (next x) xs → Chain next (some x) (x :: xs)

theorem walk_none (next : NodeId → Option NodeId) (fuel : Nat) : walk next fuel none = [] := by
  cases fuel <;> rfl

/-- A walk with enough fuel visits the whole chain. -/
theorem Chain.walk_eq {next : NodeId → Option NodeId} {start : Option NodeId}
    {xs : List NodeId} (h : Chain next start xs) {fuel : Nat} (hf : xs.length ≤ fuel) :
    walk next fuel start = xs := by
  induction h generalizing fuel with
  | nil => exact walk_none next fuel
  | cons _ ih =>
    cases fuel with
    | zero => simp at hf
    | succ fuel =>
      rw [walk, ih (by simpa using hf)]

/-- Following the links of a list without repeats from its head visits the list, when each
node's link is the node after it. -/
theorem chain_of_after {next : NodeId → Option NodeId} {xs : List NodeId} (hnd : xs.Nodup)
    (h : ∀ x ∈ xs, next x = Tree.after? xs x) : Chain next xs.head? xs := by
  induction xs with
  | nil => exact .nil
  | cons x xs ih =>
    have hx : x ∉ xs := (List.nodup_cons.1 hnd).1
    refine .cons ?_
    rw [h x List.mem_cons_self, Tree.after?_cons, if_pos rfl]
    refine ih (List.nodup_cons.1 hnd).2 fun y hy => ?_
    rw [h y (List.mem_cons_of_mem _ hy), Tree.after?_cons,
      if_neg (show x ≠ y from fun hxy => hx (hxy ▸ hy))]

/-! ## The arena stands for a tree -/

/-- The arena stands for the tree: the two hold the same nodes with the same content, owners
and parents, and every link the arena stores is the one the tree's child lists give. -/
structure Represents (L : LinkTree) (t : Tree) : Prop where
  size_eq : L.size = t.size
  content_eq : ∀ n, (L.get n).content = (t.get n).content
  owner_eq : ∀ n, (L.get n).owner = t.owner n
  parent_eq : ∀ n, L.parent n = t.parent n
  firstChild_eq : ∀ n, L.firstChild n = t.firstChild n
  lastChild_eq : ∀ n, L.lastChild n = t.lastChild n
  prevSibling_eq : ∀ n, L.prevSibling n = t.prevSibling n
  nextSibling_eq : ∀ n, L.nextSibling n = t.nextSibling n

namespace Represents

variable {t : Tree}

theorem nodeType_eq (hR : L.Represents t) (n : NodeId) : L.nodeType n = t.nodeType n := by
  simp only [nodeType, Tree.nodeType, hR.content_eq]

theorem element?_eq (hR : L.Represents t) (n : NodeId) : L.element? n = t.element? n := by
  cases hc : (t.get n).content <;> simp [element?, Tree.element?, hR.content_eq, hc]

theorem prevOf_eq (hR : L.Represents t) (p : NodeId) (ref : Option NodeId) :
    L.prevOf p ref = t.prevOf p ref := by
  cases ref <;> simp [prevOf, Tree.prevOf, hR.prevSibling_eq, hR.lastChild_eq]

/-- Following the stored next-sibling links from the first child visits the tree's child
list. -/
theorem chain_children (hR : L.Represents t) (hc : t.Consistent) (p : NodeId) :
    Chain L.nextSibling (L.firstChild p) (t.children p) := by
  rw [hR.firstChild_eq]
  refine chain_of_after (hc.nodup p) fun x hx => ?_
  rw [hR.nextSibling_eq, Tree.nextSibling, hc.mem_children.1 hx]

/-- Following the stored previous-sibling links from the last child visits it backwards. -/
theorem chain_children_back (hR : L.Represents t) (hc : t.Consistent) (p : NodeId) :
    Chain L.prevSibling (L.lastChild p) (t.children p).reverse := by
  rw [hR.lastChild_eq, Tree.lastChild, ← List.head?_reverse]
  refine chain_of_after (List.nodup_reverse.2 (hc.nodup p)) fun x hx => ?_
  rw [hR.prevSibling_eq, Tree.prevSibling, hc.mem_children.1 (List.mem_reverse.1 hx)]
  exact Tree.before?_eq_after?_reverse (hc.nodup p) x

theorem children_eq (hR : L.Represents t) (hc : t.Consistent) (p : NodeId) :
    L.children p = t.children p :=
  (hR.chain_children hc p).walk_eq (hR.size_eq ▸ hc.length_children_le p)

end Represents

theorem view_get (L : LinkTree) (n : NodeId) :
    L.view.get n = ⟨(L.get n).content, (L.get n).owner, L.parent n, L.children n⟩ := by
  by_cases hn : n < L.size
  · simp [view, Tree.get, hn, parent]
  · have hp := get_of_size_le (Nat.le_of_not_lt hn)
    have hv : L.view.size ≤ n := by simpa [view, Tree.size] using hn
    rw [Tree.get_of_size_le hv, children, firstChild, parent, hp]
    simp [LinkNode.placeholder, Node.placeholder, walk_none]

@[simp] theorem size_view (L : LinkTree) : L.view.size = L.size := by
  simp [view, Tree.size]

/-- An arena that stands for a consistent tree shows that tree. -/
theorem Represents.view_eq (hR : L.Represents t) (hc : t.Consistent) : L.view = t := by
  refine Tree.ext_get (by rw [size_view, hR.size_eq]) fun n => ?_
  rw [view_get, hR.content_eq, hR.owner_eq, hR.parent_eq, hR.children_eq hc]
  rfl

/-! ## Each primitive edit keeps the arena standing for the tree -/

namespace Represents

variable {t : Tree}

theorem empty : LinkTree.empty.Represents Tree.empty := by
  have hL : ∀ n, LinkTree.empty.get n = LinkNode.placeholder := fun n =>
    get_of_size_le (Nat.zero_le n)
  have ht : ∀ n, Tree.empty.get n = Node.placeholder := fun n =>
    Tree.get_of_size_le (Nat.zero_le n)
  refine ⟨rfl, fun n => ?_, fun n => ?_, fun n => ?_, fun n => ?_, fun n => ?_, fun n => ?_,
    fun n => ?_⟩ <;>
    simp [hL, ht, LinkNode.placeholder, Node.placeholder, parent, firstChild, lastChild,
      prevSibling, nextSibling, Tree.owner, Tree.parent, Tree.children, Tree.firstChild,
      Tree.lastChild, Tree.prevSibling, Tree.nextSibling]

/-- A new node has no links, as every missing node reads. -/
theorem alloc (hR : L.Represents t) (c : Content) (o : Option NodeId) :
    (L.alloc c o).1.Represents (t.alloc c o).1 := by
  have hlink : ∀ {α : Type} (g : LinkNode → α),
      g ⟨c, o, none, none, none, none, none⟩ = g LinkNode.placeholder →
      ∀ m, g ((L.alloc c o).1.get m) = g (L.get m) := fun g hg m => by
    rw [get_alloc]
    split
    · next hm => rw [hm, get_of_size_le le_rfl, hg]
    · rfl
  refine ⟨by simp [hR.size_eq], fun m => ?_, fun m => ?_, fun m => ?_, fun m => ?_,
    fun m => ?_, fun m => ?_, fun m => ?_⟩
  · rw [get_alloc, Tree.content_alloc, hR.size_eq]
    split
    · rfl
    · exact hR.content_eq m
  · rw [get_alloc, Tree.owner, Tree.get_alloc, hR.size_eq]
    split
    · rfl
    · exact hR.owner_eq m
  · rw [parent, hlink LinkNode.parent rfl, Tree.parent_alloc_eq]
    exact hR.parent_eq m
  · rw [firstChild, hlink LinkNode.firstChild rfl, Tree.firstChild, Tree.children_alloc_eq]
    exact hR.firstChild_eq m
  · rw [lastChild, hlink LinkNode.lastChild rfl, Tree.lastChild, Tree.children_alloc_eq]
    exact hR.lastChild_eq m
  · rw [prevSibling, hlink LinkNode.prevSibling rfl, Tree.prevSibling, Tree.parent_alloc_eq]
    simp only [Tree.children_alloc_eq]
    exact hR.prevSibling_eq m
  · rw [nextSibling, hlink LinkNode.nextSibling rfl, Tree.nextSibling, Tree.parent_alloc_eq]
    simp only [Tree.children_alloc_eq]
    exact hR.nextSibling_eq m

/-- Detaching a node rewrites the stored links exactly as the tree's lists change. -/
theorem detach (hR : L.Represents t) (hc : t.Consistent) (n : NodeId) :
    (L.detach n).Represents (t.detach n) := by
  cases hpar : t.parent n with
  | none =>
    rw [detach_of_parent_eq_none (by rw [hR.parent_eq, hpar]),
      Tree.detach_of_parent_eq_none hpar]
    exact hR
  | some p =>
    have hn : L.parent n = some p := by rw [hR.parent_eq, hpar]
    have hp : p < L.size := hR.size_eq ▸ Tree.lt_size_of_mem_children (hc.mem_children.2 hpar)
    have ha : ∀ a, L.prevSibling n = some a → a < L.size := fun a h =>
      hR.size_eq ▸ hc.lt_size_of_prevSibling (by rwa [← hR.prevSibling_eq])
    have hb : ∀ b, L.nextSibling n = some b → b < L.size := fun b h =>
      hR.size_eq ▸ hc.lt_size_of_nextSibling (by rwa [← hR.nextSibling_eq])
    refine ⟨by simp [hR.size_eq], fun m => ?_, fun m => ?_, fun m => ?_, fun m => ?_,
      fun m => ?_, fun m => ?_, fun m => ?_⟩
    · rw [content_detach, Tree.content_detach, hR.content_eq]
    · rw [owner_detach, Tree.owner_detach, hR.owner_eq]
    · rw [parent_detach, Tree.parent_detach, hR.parent_eq]
    · rw [detach_firstChild hn hp, Tree.detach_firstChild hc hpar]
      simp only [hR.prevSibling_eq, hR.nextSibling_eq, hR.firstChild_eq]
    · rw [detach_lastChild hn hp, Tree.detach_lastChild hc hpar]
      simp only [hR.prevSibling_eq, hR.nextSibling_eq, hR.lastChild_eq]
    · rw [detach_prevSibling hn hb, Tree.detach_prevSibling hc hpar]
      simp only [hR.prevSibling_eq, hR.nextSibling_eq]
    · rw [detach_nextSibling hn ha, Tree.detach_nextSibling hc hpar]
      simp only [hR.prevSibling_eq, hR.nextSibling_eq]

/-- Linking a detached node under `p` before a child of `p`, or last, rewrites the stored
links exactly as the tree's list changes. -/
theorem linkBefore (hR : L.Represents t) (hc : t.Consistent) (hn : t.parent n = none)
    (hnl : n < t.size) (hp : p < t.size) (href : ∀ r, ref = some r → t.parent r = some p) :
    (L.linkBefore p n ref).Represents (t.linkBefore p n ref) := by
  have hnl' : n < L.size := hR.size_eq ▸ hnl
  have hp' : p < L.size := hR.size_eq ▸ hp
  have ha : ∀ a, L.prevOf p ref = some a → a < L.size := fun a h =>
    hR.size_eq ▸ hc.lt_size_of_prevOf (by rwa [← hR.prevOf_eq])
  have hr : ∀ r, ref = some r → r < L.size := fun r h =>
    hR.size_eq ▸ Tree.lt_size_of_parent_eq_some (href r h)
  refine ⟨by simp [hR.size_eq], fun m => ?_, fun m => ?_, fun m => ?_, fun m => ?_,
    fun m => ?_, fun m => ?_, fun m => ?_⟩
  · rw [content_linkBefore, Tree.content_linkBefore, hR.content_eq]
  · rw [owner_linkBefore, Tree.owner_linkBefore, hR.owner_eq]
  · rw [parent_linkBefore hnl', Tree.parent_linkBefore p hnl, hR.parent_eq]
  · rw [linkBefore_firstChild hp', Tree.linkBefore_firstChild hc hp href]
    simp only [hR.prevOf_eq, hR.firstChild_eq]
  · rw [linkBefore_lastChild hp', Tree.linkBefore_lastChild hc hp href, hR.lastChild_eq]
  · rw [linkBefore_prevSibling hnl' hr, Tree.linkBefore_prevSibling hc hn hnl hp href]
    simp only [hR.prevOf_eq, hR.prevSibling_eq]
  · rw [linkBefore_nextSibling hnl' ha, Tree.linkBefore_nextSibling hc hn hnl hp href]
    simp only [hR.prevOf_eq, hR.nextSibling_eq]

theorem modifyElement (hR : L.Represents t) (n : NodeId) (f : Element → Element) :
    (L.modifyElement n f).Represents (t.modifyElement n f) := by
  refine ⟨by simp [LinkTree.modifyElement, hR.size_eq], fun m => ?_, fun m => ?_, fun m => ?_,
    fun m => ?_, fun m => ?_, fun m => ?_, fun m => ?_⟩
  · rw [content_modifyElement, Tree.modifyElement, Tree.get_modify, hR.content_eq, ← hR.size_eq]
    by_cases hm : m = n
    · subst hm
      by_cases hs : m < L.size
      · simp only [hs, and_self, if_true]
        split <;> simp_all
      · rw [if_pos rfl, if_neg (fun h => hs h.2),
          Tree.get_of_size_le (hR.size_eq ▸ Nat.le_of_not_lt hs)]
        rfl
    · simp [hm, Ne.symm hm]
  · rw [read_modifyElement LinkNode.owner (fun _ _ => rfl), Tree.owner_modifyElement, hR.owner_eq]
  · rw [parent, read_modifyElement LinkNode.parent (fun _ _ => rfl), Tree.parent_modifyElement]
    exact hR.parent_eq m
  · rw [firstChild, read_modifyElement LinkNode.firstChild (fun _ _ => rfl), Tree.firstChild,
      Tree.children_modifyElement]
    exact hR.firstChild_eq m
  · rw [lastChild, read_modifyElement LinkNode.lastChild (fun _ _ => rfl), Tree.lastChild,
      Tree.children_modifyElement]
    exact hR.lastChild_eq m
  · rw [prevSibling, read_modifyElement LinkNode.prevSibling (fun _ _ => rfl), Tree.prevSibling,
      Tree.parent_modifyElement]
    simp only [Tree.children_modifyElement]
    exact hR.prevSibling_eq m
  · rw [nextSibling, read_modifyElement LinkNode.nextSibling (fun _ _ => rfl), Tree.nextSibling,
      Tree.parent_modifyElement]
    simp only [Tree.children_modifyElement]
    exact hR.nextSibling_eq m

end Represents

end Markup.LinkTree
