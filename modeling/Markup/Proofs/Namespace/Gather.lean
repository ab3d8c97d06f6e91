import Markup.Proofs.Build.Element
import Markup.Proofs.Tree.WellFormed

/-!
# Gathered scopes

The scope gathered at a node reads the elements from the node up, and adds a binding only for
a prefix that is not bound yet, so the nearest element wins. An element offers its bindings in
a fixed order (`Element.bindings`): its own prefix and namespace, then, record by record, what
a declaration declares and the prefix of a record in a namespace.

Read at a prefix, the scope gathered at an element is therefore the first binding the element
offers for it, or else the scope gathered at its parent (`namespaceOf?_gather`). On a
well-formed tree the walk reaches the top of every chain of parents before its fuel runs out,
which is what lets the parent's scope be gathered on its own. And since the walk reads only the
records and parent links of the ancestors, an edit elsewhere leaves a gathered scope as it was
(`gather_congr`).
-/

namespace Markup

open Relation

/-- The binding an attribute record offers a gathered scope: a declaration binds the prefix it
declares to its value, and a record in a namespace binds its prefix (empty if none) to it. -/
def Attr.binding (a : Attr) : Option (String × String) :=
  match Name.declares? a.name with
  | some p => some (p, a.value)
  | none => a.ns.map fun u => (a.prefixName.getD "", u)

/-- The bindings an element offers a gathered scope, in the order they are read. -/
def Element.bindings (e : Element) : List (String × String) :=
  (e.ns.map fun u => (e.prefixName.getD "", u)).toList ++ e.attrs.filterMap Attr.binding

/-- The first binding an element offers for a prefix. -/
def Element.binding? (e : Element) (p : String) : Option String :=
  (e.bindings.find? (·.1 == p)).map (·.2)

namespace Scope

theorem get?_empty (p : String) : Scope.empty.get? p = none := rfl

theorem contains_eq_isSome (s : Scope) (p : String) : s.contains p = (s.get? p).isSome := by
  simp only [contains, get?, Option.isSome_map]
  exact List.isSome_find?.symm

theorem get?_bindIfAbsent (s : Scope) (p u q : String) :
    (s.bindIfAbsent p u).1.get? q = (s.get? q).or (if q = p then some u else none) := by
  unfold bindIfAbsent
  by_cases hq : q = p
  · subst hq
    cases hs : s.get? q with
    | none =>
      have hc : s.contains q = false := by rw [contains_eq_isSome, hs]; rfl
      simp [hc, get?_bind]
    | some v =>
      have hc : s.contains q = true := by rw [contains_eq_isSome, hs]; rfl
      simp [hc, hs]
  · split <;> simp [get?_bind, hq]

/-- One step of gathering: bind a prefix unless it is bound. -/
def bindStep (s : Scope) (b : String × String) : Scope :=
  (s.bindIfAbsent b.1 b.2).1

/-- Bindings added nearest first are read in the order they were added. -/
theorem get?_foldl_bindStep (bs : List (String × String)) (s : Scope) (q : String) :
    (bs.foldl bindStep s).get? q = (s.get? q).or ((bs.find? (·.1 == q)).map (·.2)) := by
  induction bs generalizing s with
  | nil => simp
  | cons b bs ih =>
    rw [List.foldl_cons, ih, bindStep, get?_bindIfAbsent, Option.or_assoc, List.find?_cons]
    by_cases hq : q = b.1
    · simp [hq]
    · have hb : (b.1 == q) = false := by simpa using Ne.symm hq
      simp [hq, hb]

theorem gatherElement_eq_foldl (s : Scope) (e : Element) :
    gatherElement s e = e.bindings.foldl bindStep s := by
  -- the attribute loop skips exactly the records that offer no binding
  have hattrs : ∀ (attrs : List Attr) (s : Scope), attrs.foldl (fun s a =>
      match Name.declares? a.name with
      | some p => (s.bindIfAbsent p a.value).1
      | none =>
        match a.ns with
        | some uri => (s.bindIfAbsent (a.prefixName.getD "") uri).1
        | none => s) s = (attrs.filterMap Attr.binding).foldl bindStep s := by
    intro attrs
    induction attrs with
    | nil => intro s; rfl
    | cons a rest ih =>
      intro s
      rw [List.foldl_cons, List.filterMap_cons, ih]
      unfold Attr.binding
      split
      · rfl
      · cases a.ns <;> rfl
  unfold gatherElement Element.bindings
  rw [List.foldl_append, ← hattrs]
  cases e.ns <;> rfl

theorem get?_gatherElement (s : Scope) (e : Element) (q : String) :
    (gatherElement s e).get? q = (s.get? q).or (e.binding? q) := by
  rw [gatherElement_eq_foldl, get?_foldl_bindStep]
  rfl

theorem get?_gatherWithin (t : Tree) (fuel : Nat) (s : Scope) (n : NodeId) (q : String) :
    (gatherWithin t fuel s n).get? q = (s.get? q).or ((gatherWithin t fuel empty n).get? q) := by
  induction fuel generalizing s n with
  | zero => simp [gatherWithin, get?_empty]
  | succ fuel ih =>
    simp only [gatherWithin]
    cases t.element? n with
    | none => simp [get?_empty]
    | some e =>
      cases t.parent n with
      | none => simp [get?_gatherElement, get?_empty]
      | some p => rw [ih, ih (gatherElement empty e), get?_gatherElement, get?_gatherElement,
          get?_empty, Option.none_or, Option.or_assoc]

/-- More fuel changes nothing once the chain of parents has ended. -/
theorem gatherWithin_add {t : Tree} {fuel : Nat} {n : NodeId} (h : t.ancestorAt fuel n = none)
    (k : Nat) (s : Scope) : gatherWithin t (fuel + k) s n = gatherWithin t fuel s n := by
  induction fuel generalizing n s with
  | zero => cases h
  | succ fuel ih =>
    rw [Nat.add_right_comm]
    simp only [gatherWithin]
    split
    · rfl
    · split
      · next p hp =>
        simp only [Tree.ancestorAt, hp, Option.bind_some] at h
        exact ih h _
      · rfl

/-- The scope gathered at a node reads only the records and parent links of its ancestors. -/
theorem gatherWithin_congr {t t' : Tree} {n : NodeId}
    (h : ∀ a, ReflTransGen t.ParentOf a n → t'.element? a = t.element? a ∧ t'.parent a = t.parent a)
    (fuel : Nat) (s : Scope) : gatherWithin t' fuel s n = gatherWithin t fuel s n := by
  induction fuel generalizing n s with
  | zero => rfl
  | succ fuel ih =>
    obtain ⟨hel, hpar⟩ := h n .refl
    simp only [gatherWithin, hel, hpar]
    split
    · rfl
    · split
      · next p hp =>
        exact ih (fun a ha => h a (ha.tail hp)) _
      · rfl

/-- The namespace of a prefix where the bindings `near` are read before the namespaces `far`;
an empty URI counts as none. -/
def namespaceThrough (near far : String → Option String) (p : String) : Option String :=
  match near p with
  | some u => (some u).filter (!·.isEmpty)
  | none => far p

theorem namespaceOf?_of_get? {s far : Scope} {near : String → Option String}
    (h : ∀ q, s.get? q = (near q).or (far.get? q)) :
    s.namespaceOf? = namespaceThrough near far.namespaceOf? := by
  funext q
  unfold namespaceOf? resolve? namespaceThrough
  rw [h q]
  cases near q <;> rfl

end Scope

namespace Tree.WellFormed

variable {t : Tree}

/-- No chain of parents is longer than the tree. -/
theorem ancestorAt_size_succ (h : t.WellFormed) (n : NodeId) : t.ancestorAt (t.size + 1) n = none := by
  cases ha : t.ancestorAt (t.size + 1) n with
  | none => rfl
  | some a => exact absurd (h.ancestorAt_le ha) (Nat.not_succ_le_self _)

end Tree.WellFormed

namespace Scope

variable {t t' : Tree}

/-- From an element with a parent, the walk goes on at the parent, with one step of fuel less,
which is still all the parent's own walk needs. -/
theorem gather_eq_gatherWithin_parent (h : t.WellFormed) {n m : NodeId} {e : Element}
    (he : t.element? n = some e) (hp : t.parent n = some m) :
    gather t n = gatherWithin t t.size (gatherElement empty e) m ∧
      gather t m = gatherWithin t t.size empty m := by
  have hm : t.ancestorAt t.size m = none := by
    have := h.ancestorAt_size_succ n
    simpa [Tree.ancestorAt, hp] using this
  exact ⟨by simp only [gather, gatherWithin, he, hp], gatherWithin_add hm 1 empty⟩

/-- Read at a prefix, the scope gathered at an element is the first binding the element offers,
or else the scope gathered at its parent. -/
theorem get?_gather_of_parent (h : t.WellFormed) {n m : NodeId} {e : Element}
    (he : t.element? n = some e) (hp : t.parent n = some m) (q : String) :
    (gather t n).get? q = (e.binding? q).or ((gather t m).get? q) := by
  obtain ⟨hgn, hgm⟩ := gather_eq_gatherWithin_parent h he hp
  rw [hgn, hgm, get?_gatherWithin, get?_gatherElement, get?_empty, Option.none_or]

theorem namespaceOf?_gather (h : t.WellFormed) {n m : NodeId} {e : Element}
    (he : t.element? n = some e) (hp : t.parent n = some m) :
    (gather t n).namespaceOf? = namespaceThrough e.binding? (gather t m).namespaceOf? :=
  namespaceOf?_of_get? (get?_gather_of_parent h he hp)

/-- An edit that keeps the records and parent links of a node's ancestors, on a well-formed
tree, keeps the scope gathered at the node. -/
theorem gather_congr (h : t.WellFormed) (hsize : t.size ≤ t'.size) {n : NodeId}
    (hchain : ∀ a, ReflTransGen t.ParentOf a n → t'.element? a = t.element? a ∧ t'.parent a = t.parent a) :
    gather t' n = gather t n := by
  obtain ⟨k, hk⟩ := Nat.exists_eq_add_of_le hsize
  unfold gather
  rw [gatherWithin_congr hchain, hk, Nat.add_right_comm, gatherWithin_add (h.ancestorAt_size_succ n)]

end Scope

end Markup
