import Markup.Proofs.Tree.Copy

/-!
# The shape of a subtree

What a node and the nodes under it look like, as a value: the node's content and, in order, the
shapes of its children (`Shape`). `Tree.shape` reads it off the arena, going down as many levels
as a deep clone does, which in a well-formed tree reaches every node of the subtree
(`Tree.shape_eq`).

The shape of a node depends only on the content and the children of the nodes below it
(`Tree.shape_congr`). So a deep copy has the shape of what it copies (`CopyMap.shape_image`), and
nodes moved by a splice keep their shapes (`Tree.Spliced.shape_eq`).
-/

namespace Markup

/-- A node with the nodes under it: its content and the shapes of its children, in order. -/
inductive Shape where
  | node (content : Content) (children : List Shape)
  deriving Repr

mutual

/-- Shapes are equal when their contents are and their children are, one by one. -/
def Shape.decEq : (a b : Shape) → Decidable (a = b)
  | .node c cs, .node d ds =>
    if hc : c = d then
      match Shape.decEqList cs ds with
      | isTrue h => isTrue (hc ▸ h ▸ rfl)
      | isFalse h => isFalse fun he => h (Shape.node.inj he).2
    else isFalse fun he => hc (Shape.node.inj he).1

/-- Lists of shapes are equal when they are item by item. -/
def Shape.decEqList : (as bs : List Shape) → Decidable (as = bs)
  | [], [] => isTrue rfl
  | a :: as, b :: bs =>
    match Shape.decEq a b, Shape.decEqList as bs with
    | isTrue h, isTrue h' => isTrue (h ▸ h' ▸ rfl)
    | isFalse h, _ => isFalse fun he => h (List.cons.inj he).1
    | _, isFalse h => isFalse fun he => h (List.cons.inj he).2
  | [], _ :: _ => isFalse fun h => by cases h
  | _ :: _, [] => isFalse fun h => by cases h

end

instance : DecidableEq Shape := Shape.decEq

namespace Tree

open Relation

variable {t u : Tree}

/-- The shape of `n` read `fuel` levels down; the nodes at the last level are read without
children. -/
def shapeWithin (t : Tree) : Nat → NodeId → Shape
  | 0, n => .node (t.get n).content []
  | fuel + 1, n => .node (t.get n).content ((t.children n).map (t.shapeWithin fuel))

/-- The shape of the subtree of `n`, read as deep as `cloneNode` copies. -/
def shape (t : Tree) (n : NodeId) : Shape :=
  t.shapeWithin (t.size + 1) n

/-! ## Going down a well-formed tree -/

/-- Going down from a node of a well-formed tree always ends: the relation "is a child of" is
well founded. -/
theorem WellFormed.childOf_wf (h : t.WellFormed) : WellFounded (Function.swap t.ParentOf) := by
  -- a node with every chain of parents below it shorter than `k` is accessible, by induction on `k`
  have hacc : ∀ k x, DepthBelow t x k → Acc (Function.swap t.ParentOf) x := by
    intro k
    induction k with
    | zero => exact fun x hd => absurd (hd (d := 0) rfl) (Nat.lt_irrefl 0)
    | succ k ih => exact fun x hd => .intro x fun c hc => ih c (hd.child hc)
  exact ⟨fun x => hacc _ x (h.depthBelow x)⟩

/-- Reading further down than the subtree goes changes nothing. -/
theorem shapeWithin_of_depthBelow (h : t.WellFormed) :
    ∀ {k m : Nat} {x : NodeId}, DepthBelow t x k → k ≤ m → t.shapeWithin m x = t.shapeWithin k x := by
  intro k
  induction k with
  | zero => exact fun hd _ => absurd (hd (d := 0) rfl) (Nat.lt_irrefl 0)
  | succ k ih =>
    intro m x hd hkm
    obtain ⟨m, rfl⟩ : ∃ m', m = m' + 1 := ⟨m - 1, by omega⟩
    simp only [shapeWithin]
    congr 1
    exact List.map_congr_left fun c hc =>
      ih (hd.child (h.mem_children.1 hc)) (Nat.le_of_succ_le_succ hkm)

/-- In a well-formed tree, the shape of a node is its content with the shapes of its children. -/
theorem shape_eq (h : t.WellFormed) (n : NodeId) :
    t.shape n = .node (t.get n).content ((t.children n).map t.shape) := by
  simp only [shape, shapeWithin]
  congr 1
  refine List.map_congr_left fun c hc => ?_
  -- a child's subtree is one level shallower than the tree allows
  have hd : DepthBelow t c t.size := DepthBelow.child (h.depthBelow n) (h.mem_children.1 hc)
  exact (shapeWithin_of_depthBelow h hd (Nat.le_succ _)).symm

/-- Two well-formed trees that agree on the content and the children of every node below `n`
give `n` the same shape. -/
theorem shape_congr (ht : t.WellFormed) (hu : u.WellFormed) {n : NodeId}
    (hsame : ∀ y, ReflTransGen t.ParentOf n y →
      (u.get y).content = (t.get y).content ∧ u.children y = t.children y) :
    u.shape n = t.shape n := by
  suffices ∀ x, ReflTransGen t.ParentOf n x → u.shape x = t.shape x from this n .refl
  intro x
  induction x using ht.childOf_wf.induction with
  | _ x ih =>
    intro hx
    rw [shape_eq hu, shape_eq ht, (hsame x hx).1, (hsame x hx).2]
    congr 1
    exact List.map_congr_left fun c hc =>
      ih c (ht.mem_children.1 hc) (hx.tail (ht.mem_children.1 hc))

/-! ## Copies and moves -/

/-- A copy of a subtree has, node for node, the shapes of the nodes it copies. -/
theorem CopyMap.shape_image {n : NodeId} {σ : NodeId → NodeId}
    (hc : CopyMap t u (ReflTransGen t.ParentOf n) t.children σ) (ht : t.WellFormed)
    (hu : u.WellFormed) : ∀ x, ReflTransGen t.ParentOf n x → u.shape (σ x) = t.shape x := by
  intro x
  induction x using ht.childOf_wf.induction with
  | _ x ih =>
    intro hx
    rw [shape_eq hu, shape_eq ht, hc.content hx, hc.children hx, List.map_map]
    congr 1
    exact List.map_congr_left fun c hc' =>
      ih c (ht.mem_children.1 hc') (hx.tail (ht.mem_children.1 hc'))

/-- What a deep copy puts in place, the copy or the copies of a fragment's children, has the
shapes of what it copies. -/
theorem DeepCopy.incoming_shapes {n : NodeId} {r : Tree × NodeId} (hd : DeepCopy t n r)
    (ht : t.WellFormed) (hr : r.1.WellFormed) :
    (r.1.incoming r.2).map r.1.shape = (t.incoming n).map t.shape := by
  obtain ⟨σ, hσn, hσ⟩ := hd.copies
  have himage := hσ.shape_image ht hr
  have htype : r.1.nodeType r.2 = t.nodeType n := by
    rw [← hσn]
    simp only [nodeType, hσ.content .refl]
  unfold incoming
  rw [htype]
  split
  · rw [← hσn, hσ.children .refl, List.map_map]
    exact List.map_congr_left fun c hc => himage c (.single (ht.mem_children.1 hc))
  · rw [List.map_singleton, List.map_singleton, ← hσn, himage n .refl]

/-- A splice keeps the shape of a node when it leaves alone the node's subtree: the new parent is
not in it, and no node of it loses a child to the move. -/
theorem Spliced.shape_eq {p : NodeId} {moved L : List NodeId} {gone : Option NodeId}
    (hs : Spliced t u p moved L gone) (ht : t.WellFormed) (hu : u.WellFormed) {x : NodeId}
    (hx : ∀ y, ReflTransGen t.ParentOf x y → y ≠ p ∧ ∀ c ∈ t.children y, c ∉ moved) :
    u.shape x = t.shape x :=
  shape_congr ht hu fun y hy =>
    ⟨hs.content_eq y, by rw [hs.children_other (hx y hy).1, List.filter_eq_self.2 fun c hc => by
      simpa using (hx y hy).2 c hc]⟩

end Tree

end Markup
