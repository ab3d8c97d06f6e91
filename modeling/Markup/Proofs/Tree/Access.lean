import Markup.Tree.Edit

/-!
# Reading a tree after an edit

Every edit of the arena is built from three primitive ones: changing one node (`modify`),
adding a detached node (`alloc`), and the two link edits `detach` and `linkBefore` that the
insertion operations run in sequence. This file says, field by field, what each of them does
to every node, so that later proofs never unfold them again.

A number past the last node reads as a placeholder with no links; changing it changes
nothing. The field lemmas therefore hold for every number, with a size condition only where
an edit must land to be seen.
-/

namespace Markup.Tree

variable {t : Tree}

theorem get_of_size_le (h : t.size ≤ n) : t.get n = Node.placeholder := by
  simp only [Tree.get, Array.getD_eq_getD_getElem?]
  rw [Array.getElem?_eq_none h]
  rfl

theorem parent_of_size_le (h : t.size ≤ n) : t.parent n = none := by
  simp [Tree.parent, get_of_size_le h, Node.placeholder]

theorem children_of_size_le (h : t.size ≤ n) : t.children n = [] := by
  simp [Tree.children, get_of_size_le h, Node.placeholder]

theorem lt_size_of_parent_eq_some (h : t.parent n = some p) : n < t.size := by
  rcases Nat.lt_or_ge n t.size with hn | hn
  · exact hn
  · rw [parent_of_size_le hn] at h
    cases h

theorem lt_size_of_mem_children (h : c ∈ t.children p) : p < t.size := by
  rcases Nat.lt_or_ge p t.size with hp | hp
  · exact hp
  · rw [children_of_size_le hp] at h
    cases h

/-- Only an existing node can be anything but a document. -/
theorem lt_size_of_nodeType_ne (h : t.nodeType n ≠ .document) : n < t.size := by
  rcases Nat.lt_or_ge n t.size with hn | hn
  · exact hn
  · exact absurd (by simp [nodeType, get_of_size_le hn, Node.placeholder, Content.type]) h

/-! ## Changing one node -/

@[simp] theorem size_modify (t : Tree) (n : NodeId) (f : Node → Node) :
    (t.modify n f).size = t.size := by
  simp [Tree.modify, Tree.size]

theorem get_modify (t : Tree) (n m : NodeId) (f : Node → Node) :
    (t.modify n f).get m = if n = m ∧ m < t.size then f (t.get m) else t.get m := by
  simp only [Tree.modify, Tree.get, Tree.size, Array.getD_eq_getD_getElem?, Array.getElem?_modify]
  by_cases h : m < t.nodes.size
  · simp only [h, and_true, Array.getElem?_eq_getElem h]
    split <;> rfl
  · simp [h]

/-! ## Adding a node -/

@[simp] theorem size_alloc (t : Tree) (c : Content) (o : Option NodeId) :
    (t.alloc c o).1.size = t.size + 1 := by
  simp [Tree.alloc, Tree.size]

@[simp] theorem alloc_snd (t : Tree) (c : Content) (o : Option NodeId) : (t.alloc c o).2 = t.size :=
  rfl

theorem get_alloc (t : Tree) (c : Content) (o : Option NodeId) (m : NodeId) :
    (t.alloc c o).1.get m = if m = t.size then ⟨c, o, none, []⟩ else t.get m := by
  simp only [Tree.alloc, Tree.get, Tree.size, Array.getD_eq_getD_getElem?, Array.getElem?_push]
  split <;> simp_all

theorem parent_alloc (t : Tree) (c : Content) (o : Option NodeId) (m : NodeId) :
    (t.alloc c o).1.parent m = if m = t.size then none else t.parent m := by
  simp only [Tree.parent, get_alloc]
  split <;> rfl

theorem children_alloc (t : Tree) (c : Content) (o : Option NodeId) (m : NodeId) :
    (t.alloc c o).1.children m = if m = t.size then [] else t.children m := by
  simp only [Tree.children, get_alloc]
  split <;> rfl

theorem content_alloc (t : Tree) (c : Content) (o : Option NodeId) (m : NodeId) :
    ((t.alloc c o).1.get m).content = if m = t.size then c else (t.get m).content := by
  simp only [get_alloc]
  split <;> rfl

theorem nodeType_alloc (t : Tree) (c : Content) (o : Option NodeId) (m : NodeId) :
    (t.alloc c o).1.nodeType m = if m = t.size then c.type else t.nodeType m := by
  simp only [Tree.nodeType, content_alloc]
  split <;> rfl

theorem element?_alloc (t : Tree) (c : Content) (o : Option NodeId) (m : NodeId) :
    (t.alloc c o).1.element? m =
      if m = t.size then (match c with | .element e => some e | _ => none) else t.element? m := by
  cases c <;> by_cases hm : m = t.size <;> simp [Tree.element?, content_alloc, hm]

theorem get_alloc_of_lt (c : Content) (o : Option NodeId) (hm : m < t.size) :
    (t.alloc c o).1.get m = t.get m := by
  rw [get_alloc, if_neg (Nat.ne_of_lt hm)]

/-! ## Unlinking a node -/

theorem detach_of_parent_eq_none (h : t.parent n = none) : t.detach n = t := by
  simp only [detach, h]

@[simp] theorem size_detach (t : Tree) (n : NodeId) : (t.detach n).size = t.size := by
  unfold detach
  split <;> simp

theorem content_detach (t : Tree) (n m : NodeId) :
    ((t.detach n).get m).content = (t.get m).content := by
  unfold detach
  split
  · rfl
  · simp only [get_modify]
    split <;> split <;> rfl

theorem owner_detach (t : Tree) (n m : NodeId) : (t.detach n).owner m = t.owner m := by
  unfold detach Tree.owner
  split
  · rfl
  · simp only [get_modify]
    split <;> split <;> rfl

theorem parent_detach (t : Tree) (n m : NodeId) :
    (t.detach n).parent m = if m = n then none else t.parent m := by
  unfold detach
  split
  · next h =>
    split
    · subst m; exact h
    · rfl
  · next p h =>
    have hn := lt_size_of_parent_eq_some h
    simp only [Tree.parent, get_modify, size_modify]
    by_cases hm : m = n
    · subst m; simp [hn]
    · have : ¬ (n = m ∧ m < t.size) := fun h' => hm h'.1.symm
      simp only [this, if_false, hm]
      split <;> rfl

theorem children_detach (t : Tree) (n m : NodeId) :
    (t.detach n).children m =
      if t.parent n = some m then (t.children m).erase n else t.children m := by
  unfold detach
  split
  · next h => simp [h]
  · next p h =>
    simp only [Tree.children, get_modify, size_modify, h, Option.some.injEq]
    by_cases hm : p = m
    · subst m
      by_cases hp : p < t.size
      · simp only [hp, and_true, if_true]
        split <;> rfl
      · simp [hp, get_of_size_le (Nat.le_of_not_lt hp), Node.placeholder]
    · simp only [hm, false_and, if_false]
      split <;> rfl

/-! ## Linking a node -/

@[simp] theorem size_linkBefore (t : Tree) (p n : NodeId) (ref : Option NodeId) :
    (t.linkBefore p n ref).size = t.size := by
  simp [linkBefore]

theorem content_linkBefore (t : Tree) (p n : NodeId) (ref : Option NodeId) (m : NodeId) :
    ((t.linkBefore p n ref).get m).content = (t.get m).content := by
  unfold linkBefore
  simp only [get_modify]
  split <;> split <;> rfl

theorem owner_linkBefore (t : Tree) (p n : NodeId) (ref : Option NodeId) (m : NodeId) :
    (t.linkBefore p n ref).owner m = t.owner m := by
  unfold linkBefore Tree.owner
  simp only [get_modify]
  split <;> split <;> rfl

theorem nodeType_linkBefore (t : Tree) (p n : NodeId) (ref : Option NodeId) (m : NodeId) :
    (t.linkBefore p n ref).nodeType m = t.nodeType m := by
  simp only [Tree.nodeType, content_linkBefore]

/-- A link edit touches only the parent and the linked node. -/
theorem get_linkBefore_of_ne (hp : m ≠ p) (hn : m ≠ n) (ref : Option NodeId) :
    (t.linkBefore p n ref).get m = t.get m := by
  simp only [linkBefore, get_modify, Ne.symm hp, Ne.symm hn, false_and, if_false]

theorem children_linkBefore (hp : p < t.size) (n : NodeId) (ref : Option NodeId) (m : NodeId) :
    (t.linkBefore p n ref).children m =
      if m = p then insertInto (t.children p) n ref else t.children m := by
  unfold linkBefore
  simp only [Tree.children, get_modify, size_modify]
  by_cases hm : m = p
  · subst m
    simp only [hp, and_true, if_true]
    split <;> rfl
  · simp only [hm, Ne.symm hm, false_and, if_false]
    split <;> rfl

theorem parent_linkBefore (p : NodeId) (hn : n < t.size) (ref : Option NodeId) (m : NodeId) :
    (t.linkBefore p n ref).parent m = if m = n then some p else t.parent m := by
  unfold linkBefore
  simp only [Tree.parent, get_modify, size_modify]
  by_cases hm : m = n
  · subst m; simp [hn]
  · simp only [hm, if_false, show ¬ (n = m ∧ m < t.size) from fun h => hm h.1.symm]
    split <;> rfl

/-! ## Changing an element -/

@[simp] theorem size_modifyElement (t : Tree) (n : NodeId) (f : Element → Element) :
    (t.modifyElement n f).size = t.size := by
  simp [modifyElement]

theorem parent_modifyElement (t : Tree) (n : NodeId) (f : Element → Element) (m : NodeId) :
    (t.modifyElement n f).parent m = t.parent m := by
  simp only [modifyElement, Tree.parent, get_modify]
  split
  · split <;> rfl
  · rfl

theorem children_modifyElement (t : Tree) (n : NodeId) (f : Element → Element) (m : NodeId) :
    (t.modifyElement n f).children m = t.children m := by
  simp only [modifyElement, Tree.children, get_modify]
  split
  · split <;> rfl
  · rfl

theorem owner_modifyElement (t : Tree) (n : NodeId) (f : Element → Element) (m : NodeId) :
    (t.modifyElement n f).owner m = t.owner m := by
  simp only [modifyElement, Tree.owner, get_modify]
  split
  · split <;> rfl
  · rfl

theorem nodeType_modifyElement (t : Tree) (n : NodeId) (f : Element → Element) (m : NodeId) :
    (t.modifyElement n f).nodeType m = t.nodeType m := by
  simp only [modifyElement, Tree.nodeType, get_modify]
  split
  · split <;> simp_all [Content.type]
  · rfl

theorem element?_modifyElement (t : Tree) (n : NodeId) (f : Element → Element) (m : NodeId) :
    (t.modifyElement n f).element? m = if m = n then (t.element? m).map f else t.element? m := by
  simp only [modifyElement, Tree.element?, get_modify]
  by_cases hm : m = n
  · subst hm
    by_cases hs : m < t.size
    · simp only [hs, and_self, if_true]
      cases hc : (t.get m).content <;> simp [hc]
    · simp [hs, get_of_size_le (Nat.le_of_not_lt hs), Node.placeholder]
  · simp [hm, Ne.symm hm]

end Markup.Tree
