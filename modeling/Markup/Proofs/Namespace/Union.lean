import Markup.Proofs.Namespace.Gather
import Markup.Proofs.Render.Namespaces
import Markup.Proofs.Tree.Reachable
import Mathlib.Data.String.Basic
import Mathlib.Data.List.Sort

/-!
# Gathered scopes as unions

A scope keeps its bindings in strictly increasing order of prefix, and every way of binding keeps
that order, so a scope is determined by what it gives for each prefix (`Scope.Sorted.ext`).
The left-biased union of two scopes keeps every binding of the first and adds those of the
second for prefixes the first leaves unbound.

Gathering at a node therefore splits at its first element: on a reachable tree, the walk up the
parents ends before its fuel does, a node that is no element gathers nothing, and an element
gathers its own bindings over what its parent gathers (`Reachable.gather_eq_union`). Its own
bindings are those it offers in order, each prefix bound the first time it is offered, so the
nearest element decides every prefix it binds.
-/

namespace Markup

namespace Scope

variable {s s' : Scope} {p u q : String} {bs : List (String × String)}

/-- Bindings in strictly increasing order of prefix. -/
def Sorted (s : Scope) : Prop :=
  s.bindings.Pairwise fun a b : String × String => a.1 < b.1

theorem mem_insertSorted {x : String × String} (hx : x ∈ insertSorted p u bs) :
    x = (p, u) ∨ x ∈ bs := by
  induction bs with
  | nil => simpa [insertSorted] using hx
  | cons b bs ih =>
    obtain ⟨q, v⟩ := b
    simp only [insertSorted] at hx
    split at hx
    · rcases List.mem_cons.1 hx with rfl | hx
      · exact .inl rfl
      · exact .inr (List.mem_cons_of_mem _ hx)
    · split at hx
      · simpa using hx
      · rcases List.mem_cons.1 hx with rfl | hx
        · exact .inr List.mem_cons_self
        · rcases ih hx with h | h
          · exact .inl h
          · exact .inr (List.mem_cons_of_mem _ h)

theorem pairwise_insertSorted (h : bs.Pairwise fun a b : String × String => a.1 < b.1) :
    (insertSorted p u bs).Pairwise fun a b : String × String => a.1 < b.1 := by
  induction bs with
  | nil => simp [insertSorted]
  | cons b bs ih =>
    obtain ⟨q, v⟩ := b
    rw [List.pairwise_cons] at h
    simp only [insertSorted]
    split
    · next hpq =>
      -- the binding of `p` is replaced in place
      rw [beq_iff_eq] at hpq
      subst hpq
      exact List.pairwise_cons.2 h
    · next hpq =>
      split
      · next hlt =>
        refine List.pairwise_cons.2 ⟨fun x hx => ?_, List.pairwise_cons.2 h⟩
        rcases List.mem_cons.1 hx with rfl | hx
        · exact hlt
        · exact lt_trans hlt (h.1 x hx)
      · next hlt =>
        have hqp : q < p := lt_of_le_of_ne (not_lt.1 hlt) fun hqp => by simp [hqp] at hpq
        refine List.pairwise_cons.2 ⟨fun x hx => ?_, ih h.2⟩
        rcases mem_insertSorted hx with rfl | hx
        · exact hqp
        · exact h.1 x hx

theorem sorted_empty : empty.Sorted := List.Pairwise.nil

theorem Sorted.bind (hs : s.Sorted) (p u : String) : (s.bind p u).Sorted :=
  pairwise_insertSorted hs

theorem Sorted.bindStep (hs : s.Sorted) (b : String × String) : (s.bindStep b).Sorted := by
  unfold Scope.bindStep bindIfAbsent
  split
  · exact hs
  · exact hs.bind _ _

theorem Sorted.foldl_bindStep (hs : s.Sorted) (bs : List (String × String)) :
    (bs.foldl Scope.bindStep s).Sorted := by
  induction bs generalizing s with
  | nil => exact hs
  | cons b bs ih => exact ih (hs.bindStep b)

theorem Sorted.gatherElement (hs : s.Sorted) (e : Element) : (gatherElement s e).Sorted := by
  rw [gatherElement_eq_foldl]
  exact hs.foldl_bindStep _

theorem Sorted.gatherWithin (hs : s.Sorted) (t : Tree) (fuel : Nat) (n : NodeId) :
    (gatherWithin t fuel s n).Sorted := by
  induction fuel generalizing s n with
  | zero => exact hs
  | succ fuel ih =>
    simp only [Scope.gatherWithin]
    split
    · exact hs
    · split
      · exact ih (hs.gatherElement _) _
      · exact hs.gatherElement _

/-- In a sorted scope a binding is present exactly when lookup gives it. -/
theorem Sorted.mem_iff (hs : s.Sorted) {x : String × String} :
    x ∈ s.bindings ↔ s.get? x.1 = some x.2 := by
  have hkeys : (s.bindings.map Prod.fst).Nodup := hs.map Prod.fst fun _ _ h => ne_of_lt h
  exact ⟨fun hx => Xml.lookup_eq_some_of_mem hkeys hx, fun hx => Xml.mem_of_lookup_eq_some hx⟩

/-- Two sorted scopes that agree on every prefix are equal. -/
theorem Sorted.ext (hs : s.Sorted) (hs' : s'.Sorted) (h : ∀ q, s.get? q = s'.get? q) : s = s' := by
  have : Std.Irrefl fun a b : String × String => a.1 < b.1 := ⟨fun a => lt_irrefl a.1⟩
  obtain ⟨bs⟩ := s
  obtain ⟨bs'⟩ := s'
  congr 1
  exact List.Pairwise.eq_of_mem_iff hs hs' fun x => by rw [hs.mem_iff, hs'.mem_iff, h]

/-- The left-biased union: the bindings of `s`, and those of `s'` for the prefixes that `s`
leaves unbound. -/
def union (s s' : Scope) : Scope :=
  s'.bindings.foldl bindStep s

theorem get?_union (s s' : Scope) (q : String) : (s.union s').get? q = (s.get? q).or (s'.get? q) :=
  get?_foldl_bindStep _ _ _

theorem Sorted.union (hs : s.Sorted) (s' : Scope) : (s.union s').Sorted :=
  hs.foldl_bindStep _

theorem union_empty (s : Scope) : s.union empty = s := rfl

/-- A walk that starts from a scope gives that scope over what the walk gathers alone. -/
theorem gatherWithin_eq_union (hs : s.Sorted) (t : Tree) (fuel : Nat) (n : NodeId) :
    gatherWithin t fuel s n = s.union (gatherWithin t fuel empty n) :=
  (hs.gatherWithin t fuel n).ext (hs.union _) fun q => by
    rw [get?_gatherWithin, get?_union]

end Scope

/-- The scope an element makes by itself: its prefix, or the empty one, bound to its namespace
when it has one, then, attribute by attribute in stored order, a declared prefix bound to the
declaration's value and the prefix of an attribute in a namespace, or the empty one, bound to
that namespace, each only where the prefix is not bound yet. -/
def Element.ownScope (e : Element) : Scope :=
  e.bindings.foldl Scope.bindStep Scope.empty

namespace Scope

variable {t : Tree} {n : NodeId}

theorem gatherElement_empty (e : Element) : gatherElement empty e = e.ownScope :=
  gatherElement_eq_foldl _ _

/-- The scope gathered at an element is its own scope over the one gathered at its parent. -/
theorem gather_of_element? (h : t.WellFormed) {e : Element} (he : t.element? n = some e) :
    gather t n = e.ownScope.union ((t.parent n).elim empty (gather t)) := by
  cases hp : t.parent n with
  | none =>
    simp only [gather, gatherWithin, he, hp, Option.elim_none]
    rw [union_empty, gatherElement_empty]
  | some m =>
    obtain ⟨hgn, hgm⟩ := gather_eq_gatherWithin_parent h he hp
    rw [hgn, gatherWithin_eq_union (sorted_empty.gatherElement e), gatherElement_empty,
      Option.elim_some, hgm]

end Scope

namespace Tree

open Scope

variable {t : Tree}

/-- On every reachable tree, gathering at a node stops before its fuel runs out, so more fuel
gives the same scope; a node that is no element gathers nothing; and an element gathers its own
scope over the scope gathered at its parent, or alone when it has none. So the binding of a
prefix comes from the nearest element that binds it. -/
theorem Reachable.gather_eq_union (hr : t.Reachable) (n : NodeId) :
    (∀ k, gatherWithin t (t.size + 1 + k) Scope.empty n = gather t n) ∧
    (t.element? n = none → gather t n = Scope.empty) ∧
    ∀ e, t.element? n = some e → gather t n = e.ownScope.union ((t.parent n).elim Scope.empty (gather t)) :=
  ⟨fun k => gatherWithin_add (hr.wellFormed.ancestorAt_size_succ n) k Scope.empty,
    gather_of_element?_eq_none, fun _ he => gather_of_element? hr.wellFormed he⟩

theorem Reachable.gather_eq_union_nested :
    let T := (Op.appendChild 1 2).apply ((Op.createElementNs 0 "urn:x" "x:b").apply
      ((Op.createElementNs 0 "urn:y" "a").apply (Op.createDocument.apply Tree.empty)))
    T.Reachable ∧
    ((∀ k, gatherWithin T (T.size + 1 + k) Scope.empty 2 = gather T 2) ∧
      (T.element? 2 = none → gather T 2 = Scope.empty) ∧
      ∀ e, T.element? 2 = some e →
        gather T 2 = e.ownScope.union ((T.parent 2).elim Scope.empty (gather T))) := by
  intro T
  refine ⟨?r, Reachable.gather_eq_union ?r 2⟩
  exact .step _ (.step _ (.step _ (.step _ .empty trivial) trivial) trivial) (by decide)

-- The inner declaration of `a` hides the outer one, the outer element's default namespace
-- reaches the inner element, and the inner attribute binds its own prefix.
example : (gather ((Op.setAttributeNs 2 "urn:link" "l:href" "#").apply
    ((Op.setAttributeNs 2 xmlnsNamespace "xmlns:a" "urn:inner").apply
    ((Op.appendChild 1 2).apply ((Op.createElement 0 "section").apply
    ((Op.setAttributeNs 1 xmlnsNamespace "xmlns:a" "urn:outer").apply
    ((Op.appendChild 0 1).apply ((Op.createElementNs 0 "http://www.w3.org/1999/xhtml" "html").apply
    (Op.createDocument.apply Tree.empty)))))))) 2).bindings =
    [("", "http://www.w3.org/1999/xhtml"), ("a", "urn:inner"), ("l", "urn:link")] := by
  decide +kernel

end Tree

end Markup
