import Markup.Proofs.Tree.Links
import Markup.Proofs.Tree.Reachable

/-!
# Runs of the linked arena

Every operation on an arena that stands for a well-formed tree fails exactly as the tree's
operation does, or ends in an arena that stands for the tree's result. By induction on a run,
every arena that operations make from the empty one shows a reachable tree: its stored links
walk the child lists of a well-formed forest, and its insertions do what the DOM says.
-/

namespace Markup

open Relation

namespace Tree

variable {t : Tree} {p c r : NodeId} {rep : Option NodeId}

theorem checkChild_eq_ok : t.checkChild p r = .ok () ↔ t.parent r = some p := by
  unfold checkChild
  split <;> simp_all

/-- A node that passes the check exists and is not above the new parent. -/
theorem WellFormed.of_checkInsertion (h : t.WellFormed) (hck : t.checkInsertion p c rep = .ok ()) :
    c < t.size ∧ ¬ ReflTransGen t.ParentOf c p := by
  obtain ⟨-, hdoc, hanc, -⟩ := (checkInsertion_eq_ok p c rep).1 hck
  refine ⟨lt_size_of_nodeType_ne hdoc, fun hr => ?_⟩
  rw [h.isInclusiveAncestor_iff.2 hr] at hanc
  cases hanc

theorem Forest.consistent (hF : t.Forest) : t.Consistent :=
  ⟨fun {_ _} => ⟨hF.parent_of_mem, hF.mem_of_parent⟩, hF.nodup⟩

end Tree

namespace LinkTree

variable {L : LinkTree} {t : Tree} {p c : NodeId} {ref : Option NodeId}

/-! ## Moving nodes -/

/-- Moving nodes one by one under `p`, each detached and then linked before a reference that
stays a child of `p`, keeps the arena standing for the tree. -/
theorem Represents.moveAll (hR : L.Represents t) (hc : t.Consistent) (hp : p < t.size)
    {M : List NodeId} (hM : ∀ m ∈ M, m < t.size)
    (href : ∀ r, ref = some r → t.parent r = some p ∧ r ∉ M) :
    (M.foldl (fun L n => (L.detach n).linkBefore p n ref) L).Represents
        (M.foldl (fun t n => (t.detach n).linkBefore p n ref) t) ∧
      (M.foldl (fun t n => (t.detach n).linkBefore p n ref) t).Consistent := by
  induction M generalizing L t with
  | nil => exact ⟨hR, hc⟩
  | cons m M ih =>
    have hm : m < t.size := hM m List.mem_cons_self
    have hpar : (t.detach m).parent m = none := by rw [Tree.parent_detach, if_pos rfl]
    -- the reference is not moved, so detaching `m` leaves it under `p`
    have href₁ : ∀ r, ref = some r → (t.detach m).parent r = some p := fun r hr => by
      obtain ⟨hrp, hrM⟩ := href r hr
      rw [Tree.parent_detach, if_neg (show r ≠ m from fun h => hrM (h ▸ List.mem_cons_self)), hrp]
    have hR' := (hR.detach hc m).linkBefore (hc.detach m) hpar (by simpa using hm)
      (by simpa using hp) href₁
    have hc' := (hc.detach m).linkBefore hpar (by simpa using hm) (by simpa using hp) ref
    refine ih hR' hc' (by simpa using hp) (fun x hx => by simpa using hM x (by simp [hx]))
      fun r hr => ⟨?_, fun h => (href r hr).2 (List.mem_cons_of_mem _ h)⟩
    rw [Tree.parent_linkBefore p (by simpa using hm),
      if_neg (show r ≠ m from fun h => (href r hr).2 (h ▸ List.mem_cons_self)), href₁ r hr]

theorem Represents.insertNodes (hR : L.Represents t) (hc : t.Consistent) (hp : p < t.size)
    (hcs : c < t.size) (href : ∀ r, ref = some r → t.parent r = some p ∧ r ∉ t.incoming c) :
    (L.insertNodes p c ref).Represents (t.insertNodes p c ref) ∧
      (t.insertNodes p c ref).Consistent := by
  unfold LinkTree.insertNodes Tree.insertNodes
  rw [hR.nodeType_eq]
  split
  · next hfr =>
    have hinc : t.incoming c = t.children c := if_pos (by simpa using hfr)
    rw [hR.children_eq hc]
    exact hR.moveAll hc hp (fun m hm => hc.lt_size_of_mem hm) (by rwa [hinc] at href)
  · next hfr =>
    have hinc : t.incoming c = [c] := if_neg (by simpa using hfr)
    exact hR.moveAll (M := [c]) hc hp (by simpa using hcs) (by rwa [hinc] at href)

/-! ## The three insertions -/

/-- An edit of the arena refines one of the tree when both fail with the same error, or both
succeed and the new arena stands for the new tree. -/
def EditRefines : Except TreeError LinkTree → Except TreeError Tree → Prop
  | .ok L, .ok t => L.Represents t
  | .error e, .error e' => e = e'
  | _, _ => False

namespace EditRefines

variable {x : Except TreeError LinkTree} {y : Except TreeError Tree}

/-- Both edits run the same check first. -/
theorem bind {k : Except TreeError Unit} {f : Unit → Except TreeError LinkTree}
    {g : Unit → Except TreeError Tree} (h : k = .ok () → EditRefines (f ()) (g ())) :
    EditRefines (k >>= f) (k >>= g) := by
  cases k with
  | error e => exact (rfl : e = e)
  | ok u => exact h rfl

theorem ok_iff (h : EditRefines x y) : (∃ L', x = .ok L') ↔ ∃ t', y = .ok t' := by
  cases x <;> cases y <;> simp_all [EditRefines]

theorem of_ok (h : EditRefines x y) {L' : LinkTree} (hx : x = .ok L') :
    ∃ t', y = .ok t' ∧ L'.Represents t' := by
  subst hx
  cases y with
  | error => cases h
  | ok t' => exact ⟨t', rfl, h⟩

end EditRefines

namespace Represents

theorem validateInsertion (hR : L.Represents t) (hc : t.Consistent) (p c : NodeId)
    (rep : Option NodeId) : L.validateInsertion p c rep = t.checkInsertion p c rep := by
  rw [LinkTree.validateInsertion, hR.view_eq hc]

theorem ensureChildOf (hR : L.Represents t) (p c : NodeId) :
    L.ensureChildOf p c = t.checkChild p c := by
  simp only [LinkTree.ensureChildOf, Tree.checkChild, hR.parent_eq]

theorem appendChild (hR : L.Represents t) (h : t.WellFormed) (hp : p < t.size) (c : NodeId) :
    EditRefines (L.appendChild p c) (t.appendChild p c) := by
  have hc := h.consistent
  simp only [LinkTree.appendChild, Tree.appendChild, hR.validateInsertion hc]
  refine EditRefines.bind fun hck => ?_
  exact (hR.insertNodes hc hp (h.of_checkInsertion hck).1 fun r hr => by cases hr).1

theorem insertBefore (hR : L.Represents t) (h : t.WellFormed) (hp : p < t.size) (c : NodeId)
    (ref : Option NodeId) : EditRefines (L.insertBefore p c ref) (t.insertBefore p c ref) := by
  have hc := h.consistent
  cases ref with
  | none =>
    simp only [LinkTree.insertBefore, Tree.insertBefore, hR.validateInsertion hc,
      show (none == some c) = false from rfl, Bool.false_eq_true, if_false]
    refine EditRefines.bind fun hck => ?_
    exact (hR.insertNodes hc hp (h.of_checkInsertion hck).1 fun r hr => by cases hr).1
  | some r =>
    simp only [LinkTree.insertBefore, Tree.insertBefore, hR.validateInsertion hc,
      hR.ensureChildOf, hR.nextSibling_eq]
    refine EditRefines.bind fun hrp => EditRefines.bind fun hck => ?_
    obtain ⟨hcs, hcp⟩ := h.of_checkInsertion hck
    have hrp := Tree.checkChild_eq_ok.1 hrp
    obtain ⟨A, B, hL⟩ := List.append_of_mem (h.mem_children.2 hrp)
    -- the code links before the first node from `r` on that does not move
    refine (hR.insertNodes hc hp hcs fun r' hr' => ?_).1
    rw [Tree.insertBefore_ref_eq h hcp hrp hL] at hr'
    have hmem := List.mem_of_mem_head? hr'
    exact ⟨h.mem_children.1 (by rw [hL]; exact List.mem_append_right _ (List.mem_of_mem_filter hmem)),
      by simpa using (List.mem_filter.1 hmem).2⟩

theorem replaceChild (hR : L.Represents t) (h : t.WellFormed) (hp : p < t.size)
    (new old : NodeId) :
    EditRefines (L.replaceChild p new old) (t.replaceChild p new old) := by
  have hc := h.consistent
  simp only [LinkTree.replaceChild, Tree.replaceChild, hR.validateInsertion hc,
    hR.ensureChildOf, hR.nextSibling_eq]
  refine EditRefines.bind fun hold => EditRefines.bind fun hck => ?_
  have hold := Tree.checkChild_eq_ok.1 hold
  obtain ⟨hnew, hcp⟩ := h.of_checkInsertion hck
  split
  · exact hR
  · have hne : new ≠ p := fun hnp => hcp (hnp ▸ ReflTransGen.refl)
    obtain ⟨A, B, hL⟩ := List.append_of_mem (h.mem_children.2 hold)
    have hnd := h.nodup p
    rw [hL, List.nodup_append, List.nodup_cons] at hnd
    -- after `old` leaves, the code links before the first node after it that does not move
    refine (((hR.detach hc old).insertNodes (hc.detach old) (by simpa using hp)
      (by simpa using hnew) fun r' hr' => ?_).1)
    rw [Tree.replaceChild_ref_eq h hcp hold hL] at hr'
    have hmem := List.mem_of_mem_head? hr'
    have hB : r' ∈ B := List.mem_of_mem_filter hmem
    have hr'o : r' ≠ old := fun h' => hnd.2.1.1 (h' ▸ hB)
    refine ⟨?_, ?_⟩
    · rw [Tree.parent_detach, if_neg hr'o]
      exact h.mem_children.1 (by rw [hL]; simp [hB])
    · rw [Tree.incoming_detach hold hne]
      simpa using (List.mem_filter.1 hmem).2

/-! ## Cloning -/

/-- The arena's clone loop runs as the tree's: after each child, the arena's accumulator stands
for the tree's, which `ClonedUpTo` describes. -/
theorem cloneLoop (h : t.WellFormed) {fuel : Nat} {n : NodeId} {P R : List NodeId}
    {accL : LinkTree × NodeId} {acc : Tree × NodeId} (hacc : Tree.ClonedUpTo t n P acc)
    (hR : accL.1.Represents acc.1) (h2 : accL.2 = acc.2) (hPR : P ++ R = t.children n)
    (hclone : ∀ (L : LinkTree) (s : Tree) (c : NodeId), L.Represents s → s.WellFormed →
      (L.cloneWithin c true fuel).1.Represents (s.cloneWithin c true fuel).1 ∧
        (L.cloneWithin c true fuel).2 = (s.cloneWithin c true fuel).2) :
    (R.foldl (fun acc c =>
        let (L, cc) := acc.1.cloneWithin c true fuel
        (L.linkBefore t.size cc none, t.size)) accL).1.Represents
      (R.foldl (fun acc c =>
        let (s, cc) := acc.1.cloneWithin c true fuel
        (s.linkBefore t.size cc none, t.size)) acc).1 ∧
    (R.foldl (fun acc c =>
        let (L, cc) := acc.1.cloneWithin c true fuel
        (L.linkBefore t.size cc none, t.size)) accL).2 =
      (R.foldl (fun acc c =>
        let (s, cc) := acc.1.cloneWithin c true fuel
        (s.linkBefore t.size cc none, t.size)) acc).2 := by
  induction R generalizing P acc accL with
  | nil => exact ⟨hR, h2⟩
  | cons c R ih =>
    have hc : t.parent c = some n := h.mem_children.1 (by simp [← hPR])
    have hP : (P ++ [c]).Sublist (t.children n) := by
      rw [← hPR, show P ++ c :: R = (P ++ [c]) ++ R by simp]
      exact List.sublist_append_left _ _
    have hr := hacc.wellFormed.cloneWithin c true fuel
    obtain ⟨hR', h2'⟩ := hclone accL.1 acc.1 c hR hacc.wellFormed
    have hstep := hacc.link h hc hP hr
    rw [hacc.copy_eq] at hstep
    -- the copy of `n` is older than the child's copy, and both are in the arena
    have hcopy : t.size < (acc.1.cloneWithin c true fuel).1.size :=
      Nat.lt_trans hacc.lt_size hr.lt_size
    have hlink : ((accL.1.cloneWithin c true fuel).1.linkBefore t.size
        (accL.1.cloneWithin c true fuel).2 none).Represents
        ((acc.1.cloneWithin c true fuel).1.linkBefore t.size
          (acc.1.cloneWithin c true fuel).2 none) := by
      rw [h2']
      exact hR'.linkBefore hr.wellFormed.consistent hr.parent_copy (hr.copy_eq ▸ hr.lt_size)
        hcopy fun _ h => by cases h
    exact ih hstep hlink rfl (by simp [← hPR])

/-- The copy a clone starts with. -/
theorem alloc_copy (hR : L.Represents t) (n : NodeId) :
    (L.alloc (L.get n).content (L.get n).owner).1.Represents
      (t.alloc (t.get n).content (t.get n).owner).1 := by
  rw [hR.content_eq, show (L.get n).owner = (t.get n).owner from hR.owner_eq n]
  exact hR.alloc _ _

theorem cloneWithin (hR : L.Represents t) (h : t.WellFormed) (n : NodeId) (deep : Bool)
    (fuel : Nat) :
    (L.cloneWithin n deep fuel).1.Represents (t.cloneWithin n deep fuel).1 ∧
      (L.cloneWithin n deep fuel).2 = (t.cloneWithin n deep fuel).2 := by
  induction fuel generalizing L t n deep with
  | zero => exact ⟨hR.alloc_copy n, hR.size_eq⟩
  | succ fuel ih =>
    cases deep with
    | false => exact ⟨hR.alloc_copy n, hR.size_eq⟩
    | true =>
      have h₀ : Tree.ClonedUpTo t n [] (t.alloc (t.get n).content (t.get n).owner) :=
        ⟨Tree.cloned_alloc h n, by simp [Tree.children_alloc]⟩
      have halloc := hR.alloc_copy n
      simp only [LinkTree.cloneWithin, Tree.cloneWithin, if_true, LinkTree.alloc_snd,
        hR.size_eq]
      rw [halloc.children_eq h₀.wellFormed.consistent, Tree.children_alloc_eq]
      exact cloneLoop h h₀ halloc rfl (List.nil_append _) fun L s c hRs hs =>
        ih hRs hs c true

end Represents

/-! ## Attributes and new nodes -/

namespace Represents

theorem setAttribute (hR : L.Represents t) (el : NodeId) (name value : String) :
    EditRefines (L.setAttribute el name value) (t.setAttribute el name value) := by
  unfold LinkTree.setAttribute Tree.setAttribute
  rw [hR.element?_eq, hR.nodeType_eq]
  by_cases hq : (!Name.isQName name) = true
  · simp only [hq, if_true]
    rfl
  · simp only [hq, Bool.false_eq_true, if_false]
    cases t.element? el with
    | none => rfl
    | some e => exact hR.modifyElement el _

theorem setAttributeNs (hR : L.Represents t) (el : NodeId) (ns qualified value : String) :
    EditRefines (L.setAttributeNs el ns qualified value) (t.setAttributeNs el ns qualified value) := by
  unfold LinkTree.setAttributeNs Tree.setAttributeNs
  rw [hR.element?_eq, hR.nodeType_eq]
  cases QName.parse? qualified with
  | none => rfl
  | some q =>
    cases t.element? el with
    | none => rfl
    | some e => exact hR.modifyElement el _

end Represents

/-- The arena after an edit that may fail: a failed edit leaves it as it was. -/
def settle (L : LinkTree) : Except TreeError LinkTree → LinkTree
  | .ok L' => L'
  | .error _ => L

theorem EditRefines.settle {x : Except TreeError LinkTree} {y : Except TreeError Tree}
    (h : EditRefines x y) (hR : L.Represents t) : (L.settle x).Represents (t.settle y) := by
  cases x <;> cases y
  · exact hR
  · cases h
  · cases h
  · exact h

/-- The arena after an operation. -/
def apply (L : LinkTree) : Tree.Op → LinkTree
  | .createDocument => L.createDocument.1
  | .createFragment doc => (L.createFragment doc).1
  | .createElement doc name => L.settle ((L.createElement doc name).map Prod.fst)
  | .createElementNs doc ns qualified =>
    L.settle ((L.createElementNs doc ns qualified).map Prod.fst)
  | .createText doc data => (L.createText doc data).1
  | .createComment doc data => (L.createComment doc data).1
  | .createCData doc data => L.settle ((L.createCData doc data).map Prod.fst)
  | .createInstruction doc target data =>
    L.settle ((L.createInstruction doc target data).map Prod.fst)
  | .appendChild p c => L.settle (L.appendChild p c)
  | .insertBefore p c ref => L.settle (L.insertBefore p c ref)
  | .replaceChild p new old => L.settle (L.replaceChild p new old)
  | .cloneNode n deep => (L.cloneNode n deep).1
  | .setAttribute el name value => L.settle (L.setAttribute el name value)
  | .setAttributeNs el ns qualified value => L.settle (L.setAttributeNs el ns qualified value)

/-- Every operation keeps the arena standing for the tree the same operation makes. -/
theorem Represents.apply (hR : L.Represents t) (h : t.WellFormed) {op : Tree.Op}
    (hv : op.Valid t) : (L.apply op).Represents (op.apply t) := by
  cases op with
  | createDocument => exact hR.alloc _ _
  | createFragment => exact hR.alloc _ _
  | createText => exact hR.alloc _ _
  | createComment => exact hR.alloc _ _
  | createElement doc name =>
    refine EditRefines.settle ?_ hR
    unfold LinkTree.createElement Tree.createElement
    split <;> first | exact hR.alloc _ _ | rfl
  | createElementNs doc ns qualified =>
    refine EditRefines.settle ?_ hR
    unfold LinkTree.createElementNs Tree.createElementNs
    cases QName.parse? qualified with
    | none => rfl
    | some q => exact hR.alloc _ _
  | createCData doc data =>
    refine EditRefines.settle ?_ hR
    unfold LinkTree.createCData Tree.createCData
    split <;> first | exact hR.alloc _ _ | rfl
  | createInstruction doc target data =>
    refine EditRefines.settle ?_ hR
    unfold LinkTree.createInstruction Tree.createInstruction
    split
    · rfl
    · split <;> first | exact hR.alloc _ _ | rfl
  | appendChild p c => exact (hR.appendChild h hv c).settle hR
  | insertBefore p c ref => exact (hR.insertBefore h hv c ref).settle hR
  | replaceChild p new old => exact (hR.replaceChild h hv new old).settle hR
  | cloneNode n deep =>
    show (L.cloneWithin n deep (L.size + 1)).1.Represents (t.cloneWithin n deep (t.size + 1)).1
    rw [hR.size_eq]
    exact (hR.cloneWithin h n deep _).1
  | setAttribute el name value => exact (hR.setAttribute el name value).settle hR
  | setAttributeNs el ns qualified value =>
    exact (hR.setAttributeNs el ns qualified value).settle hR

/-! ## Runs -/

/-- The arenas that runs of operations make from the empty one. -/
inductive Reachable : LinkTree → Prop
  | empty : Reachable LinkTree.empty
  | step {L : LinkTree} (op : Tree.Op) : Reachable L → op.Valid L.view → Reachable (L.apply op)

/-- Every arena a run makes stands for the tree the same run makes. -/
theorem Reachable.represents (hr : L.Reachable) : ∃ t, t.Reachable ∧ L.Represents t := by
  induction hr with
  | empty => exact ⟨Tree.empty, .empty, Represents.empty⟩
  | @step L₀ op _ hv ih =>
    obtain ⟨t, ht, hR⟩ := ih
    -- only the size decides whether an operation runs to its end
    have hs : L₀.view.size = t.size := by rw [size_view, hR.size_eq]
    have hv' : op.Valid t := by
      cases op <;> simp only [Tree.Op.Valid] at hv ⊢ <;> first | trivial | exact hs ▸ hv
    exact ⟨_, .step op ht hv', hR.apply ht.wellFormed hv'⟩

/-- An arena a run makes shows a reachable tree, and every link it stores is the one that
tree's child lists give. -/
theorem Reachable.view_reachable (hr : L.Reachable) : L.view.Reachable ∧ L.Represents L.view := by
  obtain ⟨t, ht, hR⟩ := hr.represents
  rw [hR.view_eq ht.wellFormed.consistent]
  exact ⟨ht, hR⟩

theorem view_children (L : LinkTree) (p : NodeId) : L.view.children p = L.children p := by
  simp only [Tree.children, view_get]

/-! ## The forest the links describe -/

/-- `p` is the parent link of `c`. -/
def ParentOf (L : LinkTree) (p c : NodeId) : Prop := L.parent c = some p

/-- What a reader of the arena's links relies on. From each node's first child the
next-sibling links visit its children, with no repeats and each with that node as parent,
and end after its last child; the previous-sibling links visit them back from the last
child. Every node with a parent is among its parent's children, parent links never loop, only
documents, fragments and elements have children, documents and fragments have no parent, a
document has no text or CDATA child and at most one element child, and no element has two
attributes with one namespace and local name. -/
structure Forest (L : LinkTree) : Prop where
  next_chain : ∀ p, Chain L.nextSibling (L.firstChild p) (L.children p)
  nodup : ∀ p, (L.children p).Nodup
  last_eq : ∀ p, (L.children p).getLast? = L.lastChild p
  parent_of_mem : ∀ {p x}, x ∈ L.children p → L.parent x = some p
  prev_chain : ∀ p, Chain L.prevSibling (L.lastChild p) (L.children p).reverse
  mem_of_parent : ∀ {p x}, L.parent x = some p → x ∈ L.children p
  first_last : ∀ p, L.firstChild p = none ↔ L.lastChild p = none
  acyclic : ∀ n, ¬ TransGen L.ParentOf n n
  container : ∀ {p x}, L.parent x = some p → (L.nodeType p).isContainer
  rooted : ∀ {x}, L.nodeType x = .document ∨ L.nodeType x = .fragment → L.parent x = none
  document : ∀ {d}, L.nodeType d = .document →
    (∀ x ∈ L.children d, L.nodeType x ≠ .text ∧ L.nodeType x ≠ .cdata) ∧
      ((L.children d).map L.nodeType).count .element ≤ 1
  attr_keys : ∀ {n e}, L.element? n = some e → (e.attrs.map Attr.key).Nodup

/-- An arena that stands for a forest is one in terms of its own links. -/
theorem Represents.forest (hR : L.Represents t) (hF : t.Forest) : L.Forest := by
  have hc := hF.consistent
  have hch := hR.children_eq hc
  have hty : L.nodeType = t.nodeType := funext hR.nodeType_eq
  have hpar : L.ParentOf = t.ParentOf := by
    funext p c
    simp only [ParentOf, Tree.ParentOf, hR.parent_eq]
  refine ⟨fun p => ?_, fun p => ?_, fun p => ?_, fun {p x} hx => ?_, fun p => ?_,
    fun {p x} hx => ?_, fun p => ?_, fun n => ?_, fun {p x} hx => ?_, fun {x} hx => ?_,
    fun {d} hd => ?_, fun {n e} he => ?_⟩
  · rw [hch]
    exact hR.chain_children hc p
  · rw [hch]
    exact hF.nodup p
  · rw [hch, hR.lastChild_eq]
    rfl
  · rw [hR.parent_eq]
    exact hF.parent_of_mem (hch p ▸ hx)
  · rw [hch]
    exact hR.chain_children_back hc p
  · rw [hch]
    exact hF.mem_of_parent (hR.parent_eq x ▸ hx)
  · rw [hR.firstChild_eq, hR.lastChild_eq]
    exact hF.first_last p
  · rw [hpar]
    exact hF.acyclic n
  · rw [hty]
    exact hF.container (hF.mem_of_parent (hR.parent_eq x ▸ hx))
  · rw [hR.parent_eq]
    rw [hty] at hx
    exact hF.rooted hx
  · rw [hch, hty]
    rw [hty] at hd
    exact hF.document hd
  · rw [hR.element?_eq] at he
    exact hF.attr_keys he

/-- Every arena that a run of operations makes, whether its operations succeed or fail, is a
well-formed forest in terms of the links it stores. -/
theorem Reachable.links_form_forest (hr : L.Reachable) : L.Forest := by
  obtain ⟨t, ht, hR⟩ := hr.represents
  exact hR.forest ht.forest

theorem Reachable.links_form_forest_documentRoot :
    let L := ((LinkTree.empty.apply .createDocument).apply (.createElement 0 "root")).apply
      (.appendChild 0 1)
    L.Reachable ∧ L.Forest := by
  intro L
  refine ⟨?r, Reachable.links_form_forest ?r⟩
  exact .step _ (.step _ (.step _ .empty trivial) trivial) (by decide)

/-! ## Insertions through the links -/

/-- An arena edit that refines a tree edit keeping the tree well formed ends in an arena that
shows the tree's result. -/
theorem EditRefines.view_eq {x : Except TreeError LinkTree} {y : Except TreeError Tree}
    {L' : LinkTree} (h : EditRefines x y) (hwf : ∀ t', y = .ok t' → t'.WellFormed)
    (hx : x = .ok L') : ∃ t', y = .ok t' ∧ L'.view = t' ∧ L'.Represents L'.view := by
  obtain ⟨t', hy, hR'⟩ := h.of_ok hx
  have hv := hR'.view_eq (hwf t' hy).consistent
  refine ⟨t', hy, hv, ?_⟩
  rw [hv]
  exact hR'

/-- What the DOM says of inserting `c` under `p` in the arena. Each insertion fails exactly
when the pre-insertion check on the arena's view fails. Otherwise the new arena's links are
the ones its view's lists give, and that view is the old one with the incoming nodes moved
into `p`'s children: last, before the reference, or in the replaced child's place. -/
structure InsertionRefines (L : LinkTree) (p c : NodeId) : Prop where
  append_ok : (∃ L', L.appendChild p c = .ok L') ↔
    L.view.InsertionAllowed p c (Tree.spliceBefore (L.children p) (L.view.incoming c) none)
  append_spliced : ∀ {L'}, L.appendChild p c = .ok L' → L'.Represents L'.view ∧
    Tree.Spliced L.view L'.view p (L.view.incoming c)
      (Tree.spliceBefore (L.children p) (L.view.incoming c) none) none
  insert_ok : ∀ ref, (∃ L', L.insertBefore p c ref = .ok L') ↔
    (∀ r, ref = some r → L.parent r = some p) ∧
      L.view.InsertionAllowed p c (Tree.spliceBefore (L.children p) (L.view.incoming c) ref)
  insert_spliced : ∀ {ref L'}, L.insertBefore p c ref = .ok L' → L'.Represents L'.view ∧
    Tree.Spliced L.view L'.view p (L.view.incoming c)
      (Tree.spliceBefore (L.children p) (L.view.incoming c) ref) none
  replace_ok : ∀ old, (∃ L', L.replaceChild p c old = .ok L') ↔
    L.parent old = some p ∧
      L.view.InsertionAllowed p c (Tree.spliceReplace (L.children p) (L.view.incoming c) old)
  replace_spliced : ∀ {old L'}, L.replaceChild p c old = .ok L' → L'.Represents L'.view ∧
    Tree.Spliced L.view L'.view p (L.view.incoming c)
      (Tree.spliceReplace (L.children p) (L.view.incoming c) old) (some old)

/-- On every arena a run makes, the three insertions under an existing node fail exactly when
the DOM's pre-insertion check does, and otherwise rewrite the stored links so that they
describe the child lists the DOM gives. -/
theorem Reachable.insertions_refine_dom (hr : L.Reachable) (hp : p < L.size) (c : NodeId) :
    L.InsertionRefines p c := by
  obtain ⟨ht, hR⟩ := hr.view_reachable
  have h := ht.wellFormed
  have hp' : p < L.view.size := by rwa [size_view]
  have hT := ht.insertions_refine hp' c
  refine ⟨?_, fun he => ?_, fun ref => ?_, fun he => ?_, fun old => ?_, fun he => ?_⟩ <;>
    rw [← view_children]
  · rw [(hR.appendChild h hp' c).ok_iff]
    exact hT.append_ok
  · obtain ⟨t', hy, hv, hR'⟩ :=
      (hR.appendChild h hp' c).view_eq (fun _ hy => h.appendChild hp' hy) he
    rw [hv]
    exact ⟨hv ▸ hR', hT.append_spliced hy⟩
  · rw [(hR.insertBefore h hp' c ref).ok_iff, hT.insert_ok ref]
    simp only [hR.parent_eq]
  · obtain ⟨t', hy, hv, hR'⟩ :=
      (hR.insertBefore h hp' c _).view_eq (fun _ hy => h.insertBefore hp' hy) he
    rw [hv]
    exact ⟨hv ▸ hR', hT.insert_spliced hy⟩
  · rw [(hR.replaceChild h hp' c old).ok_iff, hT.replace_ok old, hR.parent_eq]
  · obtain ⟨t', hy, hv, hR'⟩ :=
      (hR.replaceChild h hp' c _).view_eq (fun _ hy => h.replaceChild hp' hy) he
    rw [hv]
    exact ⟨hv ▸ hR', hT.replace_spliced hy⟩

theorem Reachable.insertions_refine_dom_documentRoot :
    let L := ((LinkTree.empty.apply .createDocument).apply (.createElement 0 "root")).apply
      (.appendChild 0 1)
    L.Reachable ∧ 0 < L.size ∧ L.InsertionRefines 0 1 := by
  intro L
  refine ⟨?r, ?p, Reachable.insertions_refine_dom ?r ?p 1⟩
  · exact .step _ (.step _ (.step _ .empty trivial) trivial) (by decide)
  · decide

end LinkTree

end Markup
