import Markup.Proofs.Tree.WellFormed
import Mathlib.Data.List.TakeWhile

/-!
# Insertion refines the DOM's child lists

The three insertions of a tree, `appendChild`, `insertBefore` and `replaceChild`, run the
DOM's pre-insertion check and then move nodes one at a time with `detach` and `linkBefore`.
Seen through the child lists, each one does a single thing: the node, or a fragment's children
in order, leave the lists they were in and enter the new parent's list where the reference
stands (last, before the reference, or in the replaced child's place), and the replaced child
is detached. This file states that effect as a `Spliced` tree and proves that every insertion
on a well-formed tree either fails exactly when the check fails, or has that effect.

The special cases of the code all land in the same description: a reference that is the
inserted node itself (it keeps its place), a replaced node followed by the new one, and a new
node below the replaced one.
-/

namespace Markup.Tree

open Relation

variable {t t' s : Tree}

/-! ## The DOM's view of an insertion -/

/-- The nodes an insertion of `c` moves: the children of a fragment, or `c` itself. -/
def incoming (t : Tree) (c : NodeId) : List NodeId :=
  if t.nodeType c = .fragment then t.children c else [c]

/-- The list `L` after the nodes `M` leave it and enter it, in order, where `r` stands: just
before `r`, or at `r`'s own place when `r` is one of them; at the end when there is no `r`. -/
def spliceBefore (L M : List NodeId) : Option NodeId → List NodeId
  | none => L.filter (· ∉ M) ++ M
  | some r => (L.takeWhile (· ≠ r)).filter (· ∉ M) ++ M ++ (L.dropWhile (· ≠ r)).filter (· ∉ M)

/-- The list `L` with `old` replaced by the nodes `M`, which leave their other places. -/
def spliceReplace (L M : List NodeId) (old : NodeId) : List NodeId :=
  (L.takeWhile (· ≠ old)).filter (· ∉ M) ++ M ++ ((L.dropWhile (· ≠ old)).drop 1).filter (· ∉ M)

/-- The DOM's pre-insertion check for putting `c` under `p`, where `result` is the child list
that `p` would have afterwards. -/
def InsertionAllowed (t : Tree) (p c : NodeId) (result : List NodeId) : Prop :=
  (t.nodeType p).isContainer ∧ t.nodeType c ≠ .document ∧ ¬ ReflTransGen t.ParentOf c p ∧
    (t.nodeType p = .document → NodeType.DocumentAllows (result.map t.nodeType))

/-! ## Lists -/

theorem take_idxOf (L : List NodeId) (r : NodeId) : L.take (L.idxOf r) = L.takeWhile (· ≠ r) := by
  induction L with
  | nil => rfl
  | cons x L ih =>
    rw [List.idxOf_cons, List.takeWhile_cons]
    by_cases hx : x = r
    · simp [hx]
    · have hb : (x == r) = false := by simpa using hx
      simp only [hb, cond_false, List.take_succ_cons, ih, ne_eq, hx, not_false_eq_true,
        decide_true, if_true]

theorem drop_idxOf (L : List NodeId) (r : NodeId) : L.drop (L.idxOf r) = L.dropWhile (· ≠ r) := by
  induction L with
  | nil => rfl
  | cons x L ih =>
    rw [List.idxOf_cons, List.dropWhile_cons]
    by_cases hx : x = r
    · simp [hx]
    · have hb : (x == r) = false := by simpa using hx
      simp only [hb, cond_false, List.drop_succ_cons, ih, ne_eq, hx, not_false_eq_true,
        decide_true, if_true]

theorem dropWhile_eq_cons {L : List NodeId} (hr : r ∈ L) : ∃ B, L.dropWhile (· ≠ r) = r :: B := by
  induction L with
  | nil => cases hr
  | cons x L ih =>
    by_cases hx : x = r
    · subst hx
      exact ⟨L, by simp⟩
    · rw [List.dropWhile_cons]
      simp only [ne_eq, hx, not_false_eq_true, decide_true, if_true]
      exact ih (by simpa [Ne.symm hx] using hr)

/-- The sibling after `x` in a list that holds it once. -/
theorem after?_eq (hnd : (A ++ x :: B).Nodup) : after? (A ++ x :: B) x = B.head? := by
  induction A with
  | nil =>
    cases B with
    | nil => rfl
    | cons b B => simp [after?]
  | cons a A ih =>
    have ha : a ≠ x := fun h => by simp [h] at hnd
    have hnd' : (A ++ x :: B).Nodup := (List.nodup_cons.1 hnd).2
    cases hA : A ++ x :: B with
    | nil => simp at hA
    | cons b rest =>
      rw [List.cons_append, hA, after?]
      simp only [beq_iff_eq, ha, if_false]
      rw [← hA, ih hnd']

theorem before?_eq_none {L : List NodeId} (h : x ∉ L.tail) : before? L x = none := by
  induction L with
  | nil => rfl
  | cons a L ih =>
    cases L with
    | nil => rfl
    | cons b L =>
      have hb : b ≠ x := fun hb => h (by simp [hb])
      simp only [before?, beq_iff_eq, hb, if_false]
      exact ih fun hx => h (by simp_all)

/-- The sibling before `x` in a list that holds it once. -/
theorem before?_eq (hnd : (A ++ x :: B).Nodup) : before? (A ++ x :: B) x = A.getLast? := by
  induction A with
  | nil => exact before?_eq_none (by simpa using (List.nodup_cons.1 hnd).1)
  | cons a A ih =>
    have hnd' : (A ++ x :: B).Nodup := (List.nodup_cons.1 hnd).2
    cases A with
    | nil => simp [before?]
    | cons b A =>
      have hb : b ≠ x := fun h => by simp [h] at hnd'
      rw [List.cons_append, List.cons_append, before?]
      simp only [beq_iff_eq, hb, if_false]
      rw [← List.cons_append, ih hnd']
      simp

/-- `M` put into `L` just before `ref`, or at the end when `ref` is not in `L`: what linking
nodes one after another before one reference does. -/
def placeBefore (L M : List NodeId) (ref : Option NodeId) : List NodeId :=
  L.takeWhile (some · ≠ ref) ++ M ++ L.dropWhile (some · ≠ ref)

theorem takeWhile_dropWhile (q : NodeId → Bool) (L : List NodeId) :
    (L.dropWhile q).takeWhile q = [] := by
  induction L with
  | nil => rfl
  | cons x L ih => by_cases hx : q x <;> simp [hx, ih]

theorem insertInto_eq_placeBefore (L : List NodeId) (n : NodeId) (ref : Option NodeId) :
    insertInto L n ref = placeBefore L [n] ref := by
  cases ref with
  | none =>
    rw [insertInto, placeBefore, List.takeWhile_eq_self_iff.2 (by simp),
      List.dropWhile_eq_nil_iff.2 (by simp), List.append_nil]
  | some r => simp [insertInto, placeBefore, take_idxOf, drop_idxOf]

/-- Nodes placed before a reference that is not in the front part land after it. -/
theorem placeBefore_append (hX : ∀ r, ref = some r → r ∉ X) (Y M : List NodeId) :
    placeBefore (X ++ Y) M ref = X ++ placeBefore Y M ref := by
  have hpos : ∀ x ∈ X, decide (some x ≠ ref) = true := by
    intro x hx
    simpa using fun hxr : some x = ref => hX x hxr.symm hx
  rw [placeBefore, placeBefore, List.takeWhile_append_of_pos hpos,
    List.dropWhile_append_of_pos hpos]
  simp

/-- Nodes placed before a reference that heads the list, or into a list without it, go in
front. -/
theorem placeBefore_of_takeWhile (hY : Y.takeWhile (some · ≠ ref) = []) (M : List NodeId) :
    placeBefore Y M ref = M ++ Y := by
  have hd := List.takeWhile_append_dropWhile (p := (some · ≠ ref)) (l := Y)
  rw [hY, List.nil_append] at hd
  rw [placeBefore, hY, hd, List.nil_append]

theorem takeWhile_head? (Y : List NodeId) : Y.takeWhile (some · ≠ Y.head?) = [] := by
  cases Y with
  | nil => rfl
  | cons y Y => simp

/-- Linking before the first kept node after a cut puts the nodes at the cut. -/
theorem placeBefore_filter_split {A D : List NodeId} (q : NodeId → Bool) (M : List NodeId)
    (hnd : (A ++ D).Nodup) :
    placeBefore ((A ++ D).filter q) M (D.filter q).head? = A.filter q ++ M ++ D.filter q := by
  rw [List.filter_append, placeBefore_append, placeBefore_of_takeWhile (takeWhile_head? _)]
  · simp
  · intro r hr hrA
    have hrD : r ∈ D := List.mem_of_mem_filter (List.mem_of_mem_head? hr)
    exact (List.nodup_append.1 hnd).2.2 r (List.mem_of_mem_filter hrA) r hrD rfl

/-- A list cut at one of its members. -/
theorem split_at {L : List NodeId} (hr : r ∈ L) :
    ∃ B, L = L.takeWhile (· ≠ r) ++ r :: B ∧ L.dropWhile (· ≠ r) = r :: B := by
  obtain ⟨B, hB⟩ := dropWhile_eq_cons hr
  refine ⟨B, ?_, hB⟩
  rw [← hB, List.takeWhile_append_dropWhile]

/-- The list after an insertion holds the moved nodes and the old children that stay. -/
theorem spliceBefore_perm (L M : List NodeId) (ref : Option NodeId) :
    (spliceBefore L M ref).Perm (M ++ L.filter (fun x => x ∉ M ∧ some x ≠ none)) := by
  have hstay : L.filter (fun x => x ∉ M ∧ some x ≠ none) = L.filter (· ∉ M) := by simp
  rw [hstay]
  cases ref with
  | none => exact List.perm_append_comm
  | some r =>
    have hL := List.takeWhile_append_dropWhile (p := (· ≠ r)) (l := L)
    conv_rhs => rw [← hL, List.filter_append, ← List.append_assoc]
    exact List.perm_append_comm.append_right _

theorem spliceReplace_perm {L : List NodeId} (hnd : L.Nodup) (hold : old ∈ L) (M : List NodeId) :
    (spliceReplace L M old).Perm (M ++ L.filter (fun x => x ∉ M ∧ some x ≠ some old)) := by
  obtain ⟨B, hL, hB⟩ := split_at hold
  have hA : ∀ x ∈ L.takeWhile (· ≠ old), x ≠ old := fun x hx => by
    simpa using List.mem_takeWhile_imp hx
  have hBold : old ∉ B := by
    rw [hL, List.nodup_append] at hnd
    exact (List.nodup_cons.1 hnd.2.1).1
  have hfilter : ∀ X : List NodeId, (∀ x ∈ X, x ≠ old) →
      X.filter (fun x => x ∉ M ∧ some x ≠ some old) = X.filter (· ∉ M) := fun X hX =>
    List.filter_congr fun x hx => by simp [hX x hx]
  rw [spliceReplace, hB, List.drop_one, List.tail_cons]
  conv_rhs => rw [hL, List.filter_append, List.filter_cons_of_neg (by simp),
    hfilter _ hA, hfilter B fun x hx hxo => hBold (hxo ▸ hx), ← List.append_assoc]
  exact List.perm_append_comm.append_right _

/-! ## The check -/

theorem checkInsertion_eq_ok (p c : NodeId) (rep : Option NodeId) :
    t.checkInsertion p c rep = .ok () ↔
      (t.nodeType p).isContainer ∧ t.nodeType c ≠ .document ∧ t.isInclusiveAncestor c p = false ∧
      (t.nodeType p = .document →
        (∀ x ∈ t.incoming c, t.nodeType x ≠ .text ∧ t.nodeType x ≠ .cdata) ∧
        ((t.incoming c).filter (fun x => t.nodeType x == .element)).length +
          ((t.children p).filter fun x => some x != rep && x != c && t.nodeType x == .element).length
            ≤ 1) := by
  have hinc : (if (t.nodeType c == .fragment) = true then t.children c else [c]) = t.incoming c := by
    simp [incoming]
  unfold checkInsertion
  simp only [bind, Except.bind, pure, Except.pure, throw, throwThe, MonadExceptOf.throw, hinc]
  by_cases h1 : (t.nodeType p).isContainer = true
  · by_cases h2 : t.nodeType c = .document
    · simp [h1, h2]
    · by_cases h3 : t.isInclusiveAncestor c p = true
      · simp [h1, h2, h3]
      · by_cases h4 : t.nodeType p = .document
        · rw [if_neg (by simpa using h1), if_neg (by simpa using h2), if_neg h3,
            if_neg (by simpa using h4)]
          simp only [h2, h3, h4, ne_eq, not_false_eq_true, true_and, forall_const]
          cases hf : (t.incoming c).find?
              (fun c => t.nodeType c == NodeType.text || t.nodeType c == NodeType.cdata) with
          | some x =>
            -- a text or CDATA node among the incoming ones fails the check
            have hx := List.find?_some hf
            have hmem := List.mem_of_find?_eq_some hf
            simp only [Bool.or_eq_true, beq_iff_eq] at hx
            simp only [reduceCtorEq, false_iff, not_and]
            intro _ hall
            rcases hx with hx | hx
            · exact absurd hx (hall x hmem).1
            · exact absurd hx (hall x hmem).2
          | none =>
            rw [List.find?_eq_none] at hf
            simp only [Bool.or_eq_true, beq_iff_eq, not_or] at hf
            simp only [gt_iff_lt]
            split <;> simp_all
        · simp [h1, h2, h3, h4]
  · simp [h1]

theorem DocumentAllows_perm {ts us : List NodeType} (hp : ts.Perm us) :
    NodeType.DocumentAllows ts ↔ NodeType.DocumentAllows us := by
  unfold NodeType.DocumentAllows
  rw [hp.count_eq]
  exact and_congr_left' (forall_congr' fun _ => imp_congr_left hp.mem_iff)

/-- A child of `p` is among the nodes that inserting `c` under `p` moves only when it is `c`:
a fragment, which is never a child, moves children of its own. -/
theorem mem_incoming_iff (h : t.WellFormed) (hcp : ¬ ReflTransGen t.ParentOf c p)
    (hx : x ∈ t.children p) : x ∈ t.incoming c ↔ x = c := by
  have hxp := h.mem_children.1 hx
  unfold incoming
  split
  · next hc =>
    rw [h.mem_children, hxp]
    constructor
    · intro hpc
      cases hpc
      exact absurd ReflTransGen.refl hcp
    · rintro rfl
      exact absurd hc (h.rooted hxp).2
  · simp

/-- Under a document, the element count the code makes (incoming elements, and the other
element children) is the element count of the resulting child list. -/
theorem documentAllows_iff (h : t.WellFormed) (hd : t.nodeType p = .document)
    (hcp : ¬ ReflTransGen t.ParentOf c p) {result : List NodeId}
    (hres : result.Perm
      (t.incoming c ++ (t.children p).filter (fun x => x ∉ t.incoming c ∧ some x ≠ rep))) :
    NodeType.DocumentAllows (result.map t.nodeType) ↔
      (∀ x ∈ t.incoming c, t.nodeType x ≠ .text ∧ t.nodeType x ≠ .cdata) ∧
      ((t.incoming c).filter (fun x => t.nodeType x == .element)).length +
        ((t.children p).filter fun x => some x != rep && x != c && t.nodeType x == .element).length
          ≤ 1 := by
  rw [DocumentAllows_perm (hres.map _), NodeType.DocumentAllows]
  have hold := (h.document hd).1
  have hsame : (t.children p).filter (fun x => some x != rep && x != c && t.nodeType x == .element) =
      ((t.children p).filter (fun x => x ∉ t.incoming c ∧ some x ≠ rep)).filter
        (fun x => t.nodeType x == .element) := by
    rw [List.filter_filter]
    refine List.filter_congr fun x hx => ?_
    simp only [mem_incoming_iff h hcp hx]
    by_cases hxc : x = c <;> by_cases hxr : some x = rep <;> simp [hxc, hxr]
  have hcount : ∀ l : List NodeId,
      (l.map t.nodeType).count .element = (l.filter (fun x => t.nodeType x == .element)).length := by
    intro l
    rw [List.count_eq_countP, List.countP_map, List.countP_eq_length_filter]
    rfl
  rw [hsame, List.map_append, List.count_append, hcount, hcount]
  constructor
  · rintro ⟨hty, hcount⟩
    refine ⟨fun x hx => hty _ (List.mem_append_left _ (List.mem_map_of_mem hx)), ?_⟩
    simpa using hcount
  · rintro ⟨hty, hcount⟩
    refine ⟨fun ty hmem => ?_, by simpa using hcount⟩
    rcases List.mem_append.1 hmem with hmem | hmem
    · obtain ⟨x, hx, rfl⟩ := List.mem_map.1 hmem
      exact hty x hx
    · obtain ⟨x, hx, rfl⟩ := List.mem_map.1 hmem
      exact hold _ (List.mem_map_of_mem (List.mem_of_mem_filter hx))

/-- On a well-formed tree the code's check is the DOM's pre-insertion check. -/
theorem checkInsertion_eq_ok_iff (h : t.WellFormed) {result : List NodeId}
    (hres : result.Perm
      (t.incoming c ++ (t.children p).filter (fun x => x ∉ t.incoming c ∧ some x ≠ rep))) :
    t.checkInsertion p c rep = .ok () ↔ t.InsertionAllowed p c result := by
  have hanc : t.isInclusiveAncestor c p = false ↔ ¬ ReflTransGen t.ParentOf c p := by
    rw [← Bool.not_eq_true, h.isInclusiveAncestor_iff]
  rw [checkInsertion_eq_ok, InsertionAllowed, hanc]
  constructor
  · rintro ⟨h1, h2, hcp, h4⟩
    exact ⟨h1, h2, hcp, fun hd => (documentAllows_iff h hd hcp hres).2 (h4 hd)⟩
  · rintro ⟨h1, h2, hcp, h4⟩
    exact ⟨h1, h2, hcp, fun hd => (documentAllows_iff h hd hcp hres).1 (h4 hd)⟩

/-! ## Moving nodes -/

namespace Spliced

variable {p : NodeId} {M₁ M₂ L₁ L₂ : List NodeId} {gone : Option NodeId}

theorem refl (t : Tree) (p : NodeId) : Spliced t t p [] (t.children p) none where
  size_eq := rfl
  content_eq _ := rfl
  owner_eq _ := rfl
  children_self := rfl
  children_other _ := by simp
  parent_moved h := by cases h
  parent_other _ := by simp

/-- Two splices into the same parent, the second detaching nothing, make one. -/
theorem trans (h₁ : Spliced t s p M₁ L₁ gone) (h₂ : Spliced s t' p M₂ L₂ none) :
    Spliced t t' p (M₁ ++ M₂) L₂ gone where
  size_eq := h₂.size_eq.trans h₁.size_eq
  content_eq x := (h₂.content_eq x).trans (h₁.content_eq x)
  owner_eq x := (h₂.owner_eq x).trans (h₁.owner_eq x)
  children_self := h₂.children_self
  children_other hq := by
    rw [h₂.children_other hq, h₁.children_other hq, List.filter_filter]
    refine List.filter_congr fun x _ => ?_
    simp only [List.mem_append, not_or, Bool.decide_and, Bool.and_comm]
  parent_moved {x} hx := by
    by_cases hx₂ : x ∈ M₂
    · exact h₂.parent_moved hx₂
    · rw [h₂.parent_other hx₂, if_neg (Option.some_ne_none x)]
      exact h₁.parent_moved (by simpa [hx₂] using hx)
  parent_other {x} hx := by
    rw [List.mem_append, not_or] at hx
    rw [h₂.parent_other hx.2, if_neg (Option.some_ne_none x), h₁.parent_other hx.1]

/-- A splice that moves nothing only removes parent edges. -/
theorem parentOf_of_nil (hs : Spliced t t' p [] L gone) (hxy : t'.ParentOf y x) :
    t.ParentOf y x := by
  rcases hs.parentOf hxy with ⟨hm, -⟩ | ⟨-, h⟩
  · cases hm
  · exact h

theorem reflTransGen_of_nil (hs : Spliced t t' p [] L gone)
    (hxy : ReflTransGen t'.ParentOf y x) : ReflTransGen t.ParentOf y x := by
  induction hxy with
  | refl => exact ReflTransGen.refl
  | tail _ h ih => exact ih.tail (hs.parentOf_of_nil h)

end Spliced

/-- Unlinking a child of `p` is a splice that moves nothing. -/
theorem spliced_detach (h : t.parent old = some p) :
    Spliced t (t.detach old) p [] ((t.children p).erase old) (some old) where
  size_eq := size_detach t old
  content_eq := content_detach t old
  owner_eq := owner_detach t old
  children_self := by rw [children_detach, if_pos h]
  children_other {q} hq := by
    rw [children_detach, if_neg (by rw [h]; simpa using Ne.symm hq)]
    simp
  parent_moved hx := by cases hx
  parent_other {x} _ := by
    rw [parent_detach]
    by_cases hx : x = old <;> simp [hx]

/-- Moving one node under `p`: it leaves the one list it was in and enters `p`'s list where
the reference stands. -/
theorem spliced_detach_linkBefore (hp : p < t.size) (hm : m < t.size)
    (hnd : ∀ q, t.parent m = some q → (t.children q).Nodup)
    (hmem : ∀ q, m ∈ t.children q → t.parent m = some q) (ref : Option NodeId) :
    Spliced t ((t.detach m).linkBefore p m ref) p [m]
      (insertInto ((t.children p).filter (· ∉ [m])) m ref) none := by
  -- after `detach`, every child list is the old one without `m`
  have hdet : ∀ q, (t.detach m).children q = (t.children q).filter (· ∉ [m]) := by
    intro q
    rw [children_detach]
    split
    · next hq =>
      rw [(hnd q hq).erase_eq_filter]
      refine List.filter_congr fun x _ => ?_
      by_cases hx : x = m <;> simp [hx]
    · next hq =>
      refine (List.filter_eq_self.2 fun x hx => ?_).symm
      have : x ≠ m := fun hxm => hq (hmem q (hxm ▸ hx))
      simpa using this
  refine ⟨by simp, fun x => ?_, fun x => ?_, ?_, fun {q} hq => ?_, fun {x} hx => ?_,
    fun {x} hx => ?_⟩
  · rw [content_linkBefore, content_detach]
  · rw [owner_linkBefore, owner_detach]
  · rw [children_linkBefore (by simpa using hp), if_pos rfl, hdet]
  · rw [children_linkBefore (by simpa using hp), if_neg hq, hdet]
  · rw [List.mem_singleton] at hx
    subst hx
    rw [parent_linkBefore p (by simpa using hm), if_pos rfl]
  · rw [List.mem_singleton] at hx
    rw [parent_linkBefore p (by simpa using hm), if_neg hx, parent_detach, if_neg hx]
    simp

/-- The fragment loop moves the fragment's children one at a time. The invariant: once a
prefix `P` of them has moved, `p`'s list is `X ++ P ++ Y`, where `Y` starts at the reference. -/
theorem spliced_foldl (h : t.WellFormed) (hp : p < t.size) (hcp : c ≠ p)
    (hF : t.children c = P ++ R) (hX : ∀ r, ref = some r → r ∉ X ∧ r ∉ t.children c)
    (hY : Y.takeWhile (some · ≠ ref) = []) (hXY : X ++ Y = t.children p)
    (hs : Spliced t s p P (X ++ P ++ Y) none) :
    Spliced t (R.foldl (fun t n => (t.detach n).linkBefore p n ref) s) p (t.children c)
      (X ++ t.children c ++ Y) none := by
  induction R generalizing P s with
  | nil => simpa [hF] using hs
  | cons n R ih =>
    have hpar : t.parent n = some c := h.mem_children.1 (by simp [hF])
    have hnP : n ∉ P := by
      have hnd := h.nodup c
      rw [hF, List.nodup_append] at hnd
      exact fun hn => hnd.2.2 n hn n (by simp) rfl
    have hnXY : n ∉ X ++ Y := by
      rw [hXY, h.mem_children, hpar]
      exact fun hn => hcp (Option.some.inj hn)
    have hsn : s.parent n = some c := by
      rw [hs.parent_other hnP, if_neg (Option.some_ne_none n), hpar]
    have hstep := spliced_detach_linkBefore (t := s) (m := n)
      (by rw [hs.size_eq]; exact hp)
      (by rw [hs.size_eq]; exact lt_size_of_parent_eq_some hpar)
      (fun q hq => by
        rw [hsn] at hq
        cases hq
        rw [hs.children_other hcp]
        exact (h.nodup c).filter _)
      (fun q hq => by
        by_cases hqp : q = p
        · subst hqp
          rw [hs.children_self] at hq
          simp only [List.mem_append] at hq hnXY
          tauto
        · rw [hs.children_other hqp] at hq
          rw [hsn, ← hpar]
          exact h.mem_children.1 (List.mem_of_mem_filter hq))
      ref
    -- the moved node is in none of the lists, so it lands right before `Y`
    have hlist : insertInto ((X ++ P ++ Y).filter (· ∉ [n])) n ref = X ++ (P ++ [n]) ++ Y := by
      rw [List.filter_eq_self.2 fun x hx => by
        simp only [List.mem_append] at hx hnXY
        have : x ≠ n := by rintro rfl; tauto
        simpa using this]
      rw [insertInto_eq_placeBefore, placeBefore_append (X := X ++ P), placeBefore_of_takeWhile hY]
      · simp
      · intro r hr hrXP
        rcases List.mem_append.1 hrXP with hrX | hrP
        · exact (hX r hr).1 hrX
        · exact (hX r hr).2 (by simp [hF, hrP])
    rw [hs.children_self] at hstep
    exact ih (P := P ++ [n]) (by simp [hF]) (by rw [← hlist]; exact hs.trans hstep)

/-- Inserting `c` under `p` moves the incoming nodes into `p`'s list before the reference. -/
theorem insertNodes_spliced (h : t.WellFormed) (hp : p < t.size) (hc : c < t.size)
    (hcp : ¬ ReflTransGen t.ParentOf c p) (ref : Option NodeId)
    (href : ∀ r, ref = some r → r ∉ t.incoming c) :
    Spliced t (t.insertNodes p c ref) p (t.incoming c)
      (placeBefore ((t.children p).filter (· ∉ t.incoming c)) (t.incoming c) ref) none := by
  have hX : ∀ r, ref = some r →
      r ∉ ((t.children p).filter (· ∉ t.incoming c)).takeWhile (some · ≠ ref) := by
    rintro r rfl hr
    simpa using List.mem_takeWhile_imp hr
  have hY := takeWhile_dropWhile (some · ≠ ref) ((t.children p).filter (· ∉ t.incoming c))
  unfold insertNodes
  by_cases hfr : t.nodeType c = .fragment
  · have hinc : t.incoming c = t.children c := if_pos hfr
    have hne : c ≠ p := fun hcp' => hcp (hcp' ▸ ReflTransGen.refl)
    -- no child of `p` is a child of the fragment
    have hL : (t.children p).filter (· ∉ t.children c) = t.children p := by
      refine List.filter_eq_self.2 fun x hx => ?_
      have hxc : x ∉ t.children c := by
        rw [h.mem_children, h.mem_children.1 hx]
        exact fun hpc => hne (Option.some.inj hpc).symm
      simpa using hxc
    rw [if_pos (by simpa using hfr), placeBefore]
    rw [hinc, hL] at hX hY ⊢
    rw [hinc] at href
    refine spliced_foldl h hp hne (P := []) (by simp) (fun r hr => ⟨hX r hr, href r hr⟩) hY
      List.takeWhile_append_dropWhile ?_
    rw [List.append_nil, List.takeWhile_append_dropWhile]
    exact Spliced.refl t p
  · have hinc : t.incoming c = [c] := if_neg hfr
    rw [if_neg (by simpa using hfr)]
    rw [hinc]
    have := spliced_detach_linkBefore hp hc (fun q _ => h.nodup q) (fun q hq => h.mem_children.1 hq) ref
    rwa [insertInto_eq_placeBefore] at this

/-- Every insertion links before the first node after its cut that does not move. -/
theorem insertNodes_spliced_split {A D : List NodeId} (h : t.WellFormed) (hp : p < t.size)
    (hc : c < t.size) (hcp : ¬ ReflTransGen t.ParentOf c p) (hAD : t.children p = A ++ D) :
    Spliced t (t.insertNodes p c (D.filter (· ∉ t.incoming c)).head?) p (t.incoming c)
      (A.filter (· ∉ t.incoming c) ++ t.incoming c ++ D.filter (· ∉ t.incoming c)) none := by
  have hs := insertNodes_spliced h hp hc hcp (D.filter (· ∉ t.incoming c)).head?
    fun r hr => by simpa using (List.mem_filter.1 (List.mem_of_mem_head? hr)).2
  have hnd := h.nodup p
  rw [hAD] at hs hnd
  rwa [placeBefore_filter_split _ _ hnd] at hs

/-! ## The three insertions -/

theorem bind_eq_ok {ε α : Type} {x : Except ε Unit} {f : Unit → Except ε α} {a : α} :
    (x >>= f) = .ok a ↔ x = .ok () ∧ f () = .ok a := by
  rcases x with e | ⟨⟩ <;> simp [bind, Except.bind]

theorem appendChild_ok_iff (h : t.WellFormed) :
    (∃ t', t.appendChild p c = .ok t') ↔
      t.InsertionAllowed p c (spliceBefore (t.children p) (t.incoming c) none) := by
  have hres := spliceBefore_perm (t.children p) (t.incoming c) none
  simp only [appendChild, bind_eq_ok, ← checkInsertion_eq_ok_iff h hres]
  simp [pure, Except.pure]

theorem appendChild_spliced (h : t.WellFormed) (hp : p < t.size)
    (he : t.appendChild p c = .ok t') :
    Spliced t t' p (t.incoming c) (spliceBefore (t.children p) (t.incoming c) none) none := by
  obtain ⟨-, hdoc, hcp, -⟩ := (appendChild_ok_iff h).1 ⟨t', he⟩
  have hc := lt_size_of_nodeType_ne hdoc
  simp only [appendChild, bind_eq_ok, pure, Except.pure, Except.ok.injEq] at he
  rw [← he.2]
  simpa [spliceBefore] using
    insertNodes_spliced_split h hp hc hcp (A := t.children p) (D := []) (by simp)

theorem nextSibling_eq (h : t.WellFormed) (hx : t.parent x = some p)
    (hL : t.children p = A ++ x :: B) : t.nextSibling x = B.head? := by
  have hnd := h.nodup p
  rw [hL] at hnd
  simp only [nextSibling, hx]
  rw [hL, after?_eq hnd]

theorem prevSibling_eq (h : t.WellFormed) (hx : t.parent x = some p)
    (hL : t.children p = A ++ x :: B) : t.prevSibling x = A.getLast? := by
  have hnd := h.nodup p
  rw [hL] at hnd
  simp only [prevSibling, hx]
  rw [hL, before?_eq hnd]

theorem insertBefore_ok_iff (h : t.WellFormed) :
    (∃ t', t.insertBefore p c ref = .ok t') ↔ (∀ r, ref = some r → t.parent r = some p) ∧
      t.InsertionAllowed p c (spliceBefore (t.children p) (t.incoming c) ref) := by
  have hres := spliceBefore_perm (t.children p) (t.incoming c) ref
  cases ref with
  | none =>
    simp only [insertBefore, bind_eq_ok, ← checkInsertion_eq_ok_iff h hres]
    simp [pure, Except.pure]
  | some r =>
    by_cases hr : t.parent r = some p
    · simp only [insertBefore, checkChild, hr, bind_eq_ok, ← checkInsertion_eq_ok_iff h hres]
      simp [pure, Except.pure, hr]
    · simp [insertBefore, checkChild, hr, bind, Except.bind]

/-- `insertBefore` links before the first node from the reference on that does not move. -/
theorem insertBefore_ref_eq (h : t.WellFormed) (hcp : ¬ ReflTransGen t.ParentOf c p)
    (hrp : t.parent r = some p) (hL : t.children p = A ++ r :: B) :
    (if (some r == some c) = true then t.nextSibling c else some r) =
      ((r :: B).filter (· ∉ t.incoming c)).head? := by
  by_cases hrc : r = c
  · subst hrc
    have hinc : t.incoming r = [r] := if_neg (h.rooted hrp).2
    have hnd := h.nodup p
    rw [hL, List.nodup_append, List.nodup_cons] at hnd
    rw [if_pos (by simp), nextSibling_eq h hrp hL, hinc, List.filter_cons_of_neg (by simp),
      List.filter_eq_self.2 fun x hx => by simpa using fun hxr : x = r => hnd.2.1.1 (hxr ▸ hx)]
  · have hnot : r ∉ t.incoming c := fun hm =>
      hrc ((mem_incoming_iff h hcp (h.mem_children.2 hrp)).1 hm)
    rw [if_neg (by simpa using hrc), List.filter_cons_of_pos (by simpa using hnot)]
    rfl

theorem insertBefore_spliced (h : t.WellFormed) (hp : p < t.size)
    (he : t.insertBefore p c ref = .ok t') :
    Spliced t t' p (t.incoming c) (spliceBefore (t.children p) (t.incoming c) ref) none := by
  obtain ⟨hr, -, hdoc, hcp, -⟩ := (insertBefore_ok_iff h).1 ⟨t', he⟩
  have hc := lt_size_of_nodeType_ne hdoc
  cases ref with
  | none =>
    simp only [insertBefore, bind_eq_ok, pure, Except.pure, Except.ok.injEq] at he
    rw [← he.2, if_neg (by simp)]
    simpa [spliceBefore] using
      insertNodes_spliced_split h hp hc hcp (A := t.children p) (D := []) (by simp)
  | some r =>
    have hrp := hr r rfl
    simp only [insertBefore, checkChild, hrp, bind_eq_ok, pure, Except.pure,
      Except.ok.injEq] at he
    obtain ⟨B, hL, hB⟩ := split_at (h.mem_children.2 hrp)
    rw [← he.2.2, insertBefore_ref_eq h hcp hrp hL, spliceBefore, hB]
    exact insertNodes_spliced_split h hp hc hcp hL

theorem replaceChild_ok_iff (h : t.WellFormed) :
    (∃ t', t.replaceChild p new old = .ok t') ↔ t.parent old = some p ∧
      t.InsertionAllowed p new (spliceReplace (t.children p) (t.incoming new) old) := by
  by_cases hold : t.parent old = some p
  · have hres := spliceReplace_perm (h.nodup p) (h.mem_children.2 hold) (t.incoming new)
    rw [← checkInsertion_eq_ok_iff h hres]
    simp only [replaceChild, checkChild, hold, beq_self_eq_true, if_true, bind_eq_ok, pure,
      Except.pure, true_and]
    constructor
    · rintro ⟨_, hck, -⟩
      exact hck
    · intro hck
      by_cases hno : new = old
      · exact ⟨t, hck, if_pos (by simp [hno])⟩
      · exact ⟨_, hck, if_neg (by simpa using hno)⟩
  · simp [replaceChild, checkChild, hold, bind, Except.bind]

/-- Unlinking a child keeps the tree well formed. -/
theorem WellFormed.detach (h : t.WellFormed) (hold : t.parent old = some p) :
    (t.detach old).WellFormed := by
  have hnd := h.nodup p
  refine h.spliced (spliced_detach hold) (fun x => ?_) (hnd.erase old) (fun g hg _ => ?_)
    (fun m hm => by cases hm) (fun hne => absurd rfl hne) (fun m hm => by cases hm)
    (fun hd => (h.document hd).sublist ((List.erase_sublist).map _))
  · rw [hnd.mem_erase_iff, h.mem_children]
    simp [and_comm]
  · cases hg
    exact hold

/-- Detaching a child of `p` leaves alone what inserting another node under `p` moves. -/
theorem incoming_detach (hold : t.parent old = some p) (hne : c ≠ p) :
    (t.detach old).incoming c = t.incoming c := by
  have hs := spliced_detach hold
  simp only [incoming, hs.nodeType_eq, hs.children_other hne, List.not_mem_nil,
    not_false_eq_true, decide_true, List.filter_true]

/-- `replaceChild` links before the first node after the replaced one that does not move. -/
theorem replaceChild_ref_eq (h : t.WellFormed) (hcp : ¬ ReflTransGen t.ParentOf new p)
    (hold : t.parent old = some p) (hL : t.children p = A ++ old :: B) :
    (if (t.nextSibling old == some new) = true then t.nextSibling new
      else t.nextSibling old) = (B.filter (· ∉ t.incoming new)).head? := by
  have hnd := h.nodup p
  rw [hL, List.nodup_append, List.nodup_cons] at hnd
  rw [nextSibling_eq h hold hL]
  cases B with
  | nil => simp
  | cons b B₂ =>
    have hb : t.parent b = some p := h.mem_children.1 (by rw [hL]; simp)
    by_cases hbn : b = new
    · subst hbn
      have hinc : t.incoming b = [b] := if_neg (h.rooted hb).2
      have hL' : t.children p = (A ++ [old]) ++ b :: B₂ := by
        rw [List.append_assoc, List.singleton_append]
        exact hL
      rw [if_pos (by simp), nextSibling_eq h hb hL', hinc, List.filter_cons_of_neg (by simp),
        List.filter_eq_self.2 fun x hx => by
          simpa using fun hxb : x = b => (List.nodup_cons.1 hnd.2.1.2).1 (hxb ▸ hx)]
    · have hnot : b ∉ t.incoming new := fun hm =>
        hbn ((mem_incoming_iff h hcp (h.mem_children.2 hb)).1 hm)
      rw [if_neg (by simpa using hbn), List.filter_cons_of_pos (by simpa using hnot)]
      rfl

theorem replaceChild_spliced (h : t.WellFormed) (hp : p < t.size)
    (he : t.replaceChild p new old = .ok t') :
    Spliced t t' p (t.incoming new) (spliceReplace (t.children p) (t.incoming new) old)
      (some old) := by
  obtain ⟨hold, -, hdoc, hcp, -⟩ := (replaceChild_ok_iff h).1 ⟨t', he⟩
  have hnew := lt_size_of_nodeType_ne hdoc
  obtain ⟨B, hL, hB⟩ := split_at (h.mem_children.2 hold)
  have hnd := h.nodup p
  rw [hL, List.nodup_append, List.nodup_cons] at hnd
  have hoA : old ∉ (t.children p).takeWhile (· ≠ old) := fun ho => hnd.2.2 old ho old (by simp) rfl
  simp only [replaceChild, checkChild, hold, beq_self_eq_true, if_true, bind_eq_ok, pure,
    Except.pure, true_and] at he
  by_cases hno : new = old
  · -- replacing a node by itself changes nothing
    subst hno
    rw [if_pos (by simp)] at he
    cases he.2
    have hinc : t.incoming new = [new] := if_neg (h.rooted hold).2
    have hA : ∀ x ∈ (t.children p).takeWhile (· ≠ new), decide (x ∉ [new]) = true :=
      fun x hx => by simpa using fun hxn : x = new => hoA (hxn ▸ hx)
    have hB' : ∀ x ∈ B, decide (x ∉ [new]) = true :=
      fun x hx => by simpa using fun hxn : x = new => hnd.2.1.1 (hxn ▸ hx)
    rw [hinc, spliceReplace, hB, List.drop_one, List.tail_cons, List.filter_eq_self.2 hA,
      List.filter_eq_self.2 hB', List.append_assoc, List.singleton_append, ← hL]
    refine ⟨rfl, fun _ => rfl, fun _ => rfl, rfl, fun {q} hq => ?_, fun {x} hx => ?_,
      fun {x} hx => ?_⟩
    · refine (List.filter_eq_self.2 fun x hx => ?_).symm
      have : x ≠ new := by
        rintro rfl
        exact hq (Option.some.inj ((h.mem_children.1 hx).symm.trans hold))
      simpa using this
    · rw [List.mem_singleton] at hx
      rw [hx, hold]
    · rw [if_neg (by simpa using hx)]
  · rw [if_neg (by simpa using hno)] at he
    have hs₁ := spliced_detach hold
    have h₁ := h.detach hold
    have hne : new ≠ p := fun hnp => hcp (hnp ▸ ReflTransGen.refl)
    have hinc₁ := incoming_detach hold hne
    have hL₁ : (t.detach old).children p = (t.children p).takeWhile (· ≠ old) ++ B := by
      rw [hs₁.children_self]
      conv_lhs => rw [hL]
      rw [List.erase_append_right _ hoA, List.erase_cons_head]
    have href := replaceChild_ref_eq h hcp hold hL
    have hs₂ := insertNodes_spliced_split h₁ (by simpa using hp) (by simpa using hnew)
      (fun hr => hcp (hs₁.reflTransGen_of_nil hr)) hL₁
    rw [hinc₁, ← href, Except.ok.inj he.2] at hs₂
    rw [spliceReplace, hB, List.drop_one, List.tail_cons]
    exact hs₁.trans hs₂

/-! ## Insertions keep the shape -/

theorem incoming_nodup (h : t.WellFormed) (c : NodeId) : (t.incoming c).Nodup := by
  unfold incoming
  split
  · exact h.nodup c
  · exact List.nodup_singleton c

/-- An insertion that the check allows, with the effect the DOM gives it, keeps the tree well
formed. -/
theorem WellFormed.of_insertion (h : t.WellFormed) {result : List NodeId} {gone : Option NodeId}
    (hs : Spliced t t' p (t.incoming c) result gone)
    (hres : result.Perm (t.incoming c ++
      (t.children p).filter (fun x => x ∉ t.incoming c ∧ some x ≠ gone)))
    (hallow : t.InsertionAllowed p c result)
    (hgone : ∀ g, gone = some g → t.parent g = some p) : t'.WellFormed := by
  obtain ⟨hcont, hdoc, hcp, hdocp⟩ := hallow
  refine h.spliced hs (fun x => ?_) ?_ (fun g hg _ => hgone g hg) (fun m hm hmp => ?_)
    (fun _ => hcont) (fun m hm => ?_) hdocp
  · rw [hres.mem_iff, List.mem_append, List.mem_filter, h.mem_children]
    by_cases hx : x ∈ t.incoming c <;> simp [hx]
  · rw [hres.nodup_iff, List.nodup_append]
    refine ⟨incoming_nodup h c, (h.nodup p).filter _, fun a ha b hb hab => ?_⟩
    subst hab
    simp only [List.mem_filter, decide_eq_true_eq] at hb
    exact hb.2.1 ha
  · -- a moved node is `c` or a child of the fragment `c`; neither is above `p`
    unfold incoming at hm
    split at hm
    · exact hcp ((ReflTransGen.single (show t.ParentOf c m from h.mem_children.1 hm)).trans hmp)
    · rw [List.mem_singleton] at hm
      subst hm
      exact hcp hmp
  · unfold incoming at hm
    split at hm
    · exact h.rooted (h.mem_children.1 hm)
    · next hfr =>
      rw [List.mem_singleton] at hm
      subst hm
      exact ⟨hdoc, hfr⟩

theorem WellFormed.appendChild (h : t.WellFormed) (hp : p < t.size)
    (he : t.appendChild p c = .ok t') : t'.WellFormed :=
  h.of_insertion (appendChild_spliced h hp he) (spliceBefore_perm _ _ _)
    ((appendChild_ok_iff h).1 ⟨t', he⟩) fun _ hg => by cases hg

theorem WellFormed.insertBefore (h : t.WellFormed) (hp : p < t.size)
    (he : t.insertBefore p c ref = .ok t') : t'.WellFormed :=
  h.of_insertion (insertBefore_spliced h hp he) (spliceBefore_perm _ _ _)
    ((insertBefore_ok_iff h).1 ⟨t', he⟩).2 fun _ hg => by cases hg

theorem WellFormed.replaceChild (h : t.WellFormed) (hp : p < t.size)
    (he : t.replaceChild p new old = .ok t') : t'.WellFormed := by
  obtain ⟨hold, hallow⟩ := (replaceChild_ok_iff h).1 ⟨t', he⟩
  refine h.of_insertion (replaceChild_spliced h hp he)
    (spliceReplace_perm (h.nodup p) (h.mem_children.2 hold) _) hallow fun g hg => ?_
  cases hg
  exact hold

/-! ## The DOM's account of the three insertions -/

/-- A fragment whose children were moved is left empty. -/
theorem Spliced.children_fragment (hs : Spliced t t' p (t.incoming c) L gone)
    (hfr : t.nodeType c = .fragment) (hcp : c ≠ p) : t'.children c = [] := by
  rw [hs.children_other hcp, List.filter_eq_nil_iff]
  intro x hx
  simpa [incoming, hfr] using hx

/-- What the DOM says of inserting `c` under `p` by each of the three insertions: the call
fails exactly when the pre-insertion check fails, and otherwise moves the incoming nodes into
`p`'s list, last, before the reference, or in the replaced child's place. -/
structure InsertionRefines (t : Tree) (p c : NodeId) : Prop where
  append_ok : (∃ t', t.appendChild p c = .ok t') ↔
    t.InsertionAllowed p c (spliceBefore (t.children p) (t.incoming c) none)
  append_spliced : ∀ {t'}, t.appendChild p c = .ok t' →
    Spliced t t' p (t.incoming c) (spliceBefore (t.children p) (t.incoming c) none) none
  insert_ok : ∀ ref, (∃ t', t.insertBefore p c ref = .ok t') ↔
    (∀ r, ref = some r → t.parent r = some p) ∧
      t.InsertionAllowed p c (spliceBefore (t.children p) (t.incoming c) ref)
  insert_spliced : ∀ {ref t'}, t.insertBefore p c ref = .ok t' →
    Spliced t t' p (t.incoming c) (spliceBefore (t.children p) (t.incoming c) ref) none
  replace_ok : ∀ old, (∃ t', t.replaceChild p c old = .ok t') ↔
    t.parent old = some p ∧
      t.InsertionAllowed p c (spliceReplace (t.children p) (t.incoming c) old)
  replace_spliced : ∀ {old t'}, t.replaceChild p c old = .ok t' →
    Spliced t t' p (t.incoming c) (spliceReplace (t.children p) (t.incoming c) old) (some old)

theorem WellFormed.insertionRefines (h : t.WellFormed) (hp : p < t.size) (c : NodeId) :
    t.InsertionRefines p c where
  append_ok := appendChild_ok_iff h
  append_spliced := appendChild_spliced h hp
  insert_ok _ := insertBefore_ok_iff h
  insert_spliced := insertBefore_spliced h hp
  replace_ok _ := replaceChild_ok_iff h
  replace_spliced := replaceChild_spliced h hp

end Markup.Tree
