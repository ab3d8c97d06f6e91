import Markup.Build.Interpret
import Markup.Proofs.Tree.Access

/-!
# Build steps and what they keep

A build step runs on a tree and either fails or returns a value with a new tree. `Triple P x Q`
says that a step `x` run on a tree where `P` holds, if it succeeds with `a`, leaves a tree where
`Q a` holds; there are rules for each way steps are put together. Failure is not excluded:
these are the facts about the trees that successful builds leave.

The facts the build needs about the tree edits are that they keep element records:
inserting and attaching nodes moves links only, and a clone copies records it finds. So a
property of every element of a tree holds after any such step.
-/

namespace Markup

namespace BuildM

variable {α β : Type} {P P' : Tree → Prop} {Q Q' : α → Tree → Prop} {R : β → Tree → Prop}

/-- A step from a tree where `P` holds that succeeds with `a` leaves a tree where `Q a` holds. -/
def Triple (P : Tree → Prop) (x : BuildM α) (Q : α → Tree → Prop) : Prop :=
  ∀ t a t', P t → x t = .ok a t' → Q a t'

theorem bind_eq_ok {x : BuildM α} {f : α → BuildM β} {t t' : Tree} {b : β}
    (h : (x >>= f) t = .ok b t') : ∃ a t₁, x t = .ok a t₁ ∧ f a t₁ = .ok b t' := by
  change EStateM.bind x f t = _ at h
  unfold EStateM.bind at h
  cases hxt : x t with
  | ok a t₁ =>
    rw [hxt] at h
    exact ⟨a, t₁, rfl, h⟩
  | error e t₁ =>
    rw [hxt] at h
    cases h

theorem bind_apply_of_eq_ok {x : BuildM α} {f : α → BuildM β} {t t' : Tree} {a : α}
    (h : x t = .ok a t') : (x >>= f) t = f a t' := by
  change EStateM.bind x f t = _
  simp only [EStateM.bind, h]

theorem Triple.bind {x : BuildM α} {f : α → BuildM β} (hx : Triple P x Q)
    (hf : ∀ a, Triple (Q a) (f a) R) : Triple P (x >>= f) R := by
  intro t b t'' hP h
  obtain ⟨a, t', hxt, hft⟩ := bind_eq_ok h
  exact hf a t' b t'' (hx t a t' hP hxt) hft

/-- A step keeps an invariant of the tree. -/
def Keeps (I : Tree → Prop) (x : BuildM α) : Prop :=
  Triple I x fun _ => I

theorem Keeps.bind {I : Tree → Prop} {x : BuildM α} {f : α → BuildM β} (hx : Keeps I x)
    (hf : ∀ a, Keeps I (f a)) : Keeps I (x >>= f) :=
  Triple.bind hx hf

/-- A fact about where a step starts may be assumed while proving the step. -/
theorem Triple.of_fact {F : Prop} {x : BuildM α} (h : F → Triple P x Q) :
    Triple (fun t => P t ∧ F) x Q :=
  fun t a t' hP hx => h hP.2 t a t' hP.1 hx

theorem triple_pure {a : α} (h : ∀ t, P t → Q a t) : Triple P (pure a) Q := by
  intro t b t' hP hx
  cases hx
  exact h t hP

theorem keeps_pure {I : Tree → Prop} (a : α) : Keeps I (pure a) :=
  triple_pure fun _ h => h

theorem triple_throw {e : BuildError} : Triple P (throw e : BuildM α) Q := by
  intro t a t' _ hx
  cases hx

theorem triple_throw_bind {e : BuildError} {f : α → BuildM β} :
    Triple P (throw e >>= f) R := by
  intro t a t' _ hx
  cases hx

theorem triple_read {f : Tree → α} (h : ∀ t, P t → Q (f t) t) : Triple P (read f) Q := by
  intro t a t' hP hx
  cases hx
  exact h t hP

theorem keeps_read {I : Tree → Prop} (f : Tree → α) : Keeps I (read f) :=
  triple_read fun _ h => h

theorem edit_eq_ok {f : Tree → Except TreeError Tree} {t t' : Tree} {u : Unit}
    (h : edit f t = .ok u t') : f t = .ok t' := by
  simp only [edit] at h
  split at h
  · cases h
    assumption
  · cases h

theorem triple_edit {f : Tree → Except TreeError Tree} {Q : Unit → Tree → Prop}
    (h : ∀ t t', P t → f t = .ok t' → Q () t') : Triple P (edit f) Q := by
  intro t a t' hP hx
  simp only [edit] at hx
  split at hx
  · cases hx
    exact h t t' hP ‹_›
  · cases hx

theorem make_eq_ok {f : Tree → Except TreeError (Tree × NodeId)} {t t' : Tree} {a : NodeId}
    (h : make f t = .ok a t') : f t = .ok (t', a) := by
  simp only [make] at h
  split at h
  · cases h
    assumption
  · cases h

theorem triple_make {f : Tree → Except TreeError (Tree × NodeId)} {Q : NodeId → Tree → Prop}
    (h : ∀ t r, P t → f t = .ok r → Q r.2 r.1) : Triple P (make f) Q := by
  intro t a t' hP hx
  simp only [make] at hx
  split at hx
  · cases hx
    exact h t _ hP ‹_›
  · cases hx

theorem triple_alloc {f : Tree → Tree × NodeId} {Q : NodeId → Tree → Prop}
    (h : ∀ t, P t → Q (f t).2 (f t).1) : Triple P (alloc f) Q := by
  intro t a t' hP hx
  cases hx
  exact h t hP

theorem check_eq_ok {r : Except BuildError α} {t t' : Tree} {a : α} (h : check r t = .ok a t') :
    r = .ok a ∧ t' = t := by
  cases r with
  | error e => cases h
  | ok b =>
    cases h
    exact ⟨rfl, rfl⟩

theorem triple_check {r : Except BuildError α} (h : ∀ a, r = .ok a → ∀ t, P t → Q a t) :
    Triple P (check r) Q := by
  cases r with
  | error e => exact triple_throw
  | ok a => exact triple_pure (h a rfl)

end BuildM

/-! ## Element records -/

namespace Tree

/-- Every element record of the tree satisfies `C`. -/
def Elements (C : Element → Prop) (t : Tree) : Prop :=
  ∀ m e, t.element? m = some e → C e

variable {C : Element → Prop} {t t' : Tree}

theorem Elements.of_element?_eq (h : Elements C t) (heq : ∀ m, t'.element? m = t.element? m) :
    Elements C t' :=
  fun m e he => h m e (heq m ▸ he)

theorem element?_eq_of_content_eq (h : ∀ m, (t'.get m).content = (t.get m).content) (m : NodeId) :
    t'.element? m = t.element? m := by
  simp only [element?, h]

theorem content_insertNodes (t : Tree) (p c : NodeId) (ref : Option NodeId) (m : NodeId) :
    ((t.insertNodes p c ref).get m).content = (t.get m).content := by
  have hstep : ∀ (s : Tree) (n : NodeId),
      (((s.detach n).linkBefore p n ref).get m).content = (s.get m).content := fun s n => by
    rw [content_linkBefore, content_detach]
  have hfold : ∀ (cs : List NodeId) (s : Tree),
      ((cs.foldl (fun t n => (t.detach n).linkBefore p n ref) s).get m).content =
        (s.get m).content := by
    intro cs
    induction cs with
    | nil => intro s; rfl
    | cons n cs ih => intro s; rw [List.foldl_cons, ih, hstep]
  unfold insertNodes
  split
  · exact hfold _ _
  · exact hstep t c

theorem content_of_appendChild {p c : NodeId} (h : t.appendChild p c = .ok t') (m : NodeId) :
    (t'.get m).content = (t.get m).content := by
  simp only [appendChild, bind, Except.bind] at h
  split at h <;> cases h
  exact content_insertNodes ..

theorem content_of_insertBefore {p c : NodeId} {ref : Option NodeId}
    (h : t.insertBefore p c ref = .ok t') (m : NodeId) : (t'.get m).content = (t.get m).content := by
  cases ref with
  | none =>
    simp only [insertBefore, bind, Except.bind] at h
    split at h <;> cases h
    exact content_insertNodes ..
  | some r =>
    simp only [insertBefore, bind, Except.bind] at h
    split at h
    · cases h
    · split at h <;> cases h
      exact content_insertNodes ..

theorem content_of_replaceChild {p c old : NodeId} (h : t.replaceChild p c old = .ok t')
    (m : NodeId) : (t'.get m).content = (t.get m).content := by
  simp only [replaceChild, bind, Except.bind] at h
  split at h
  · cases h
  · split at h
    · cases h
    · split at h <;> cases h
      · rfl
      · rw [content_insertNodes, content_detach]

theorem Elements.alloc (h : Elements C t) {c : Content} (o : Option NodeId)
    (hc : ∀ e, c = .element e → C e) : Elements C (t.alloc c o).1 := by
  intro m e he
  rw [element?_alloc] at he
  split at he
  · cases c with
    | element e' =>
      cases he
      exact hc e rfl
    | _ => cases he
  · exact h m e he

/-- A clone copies the element records it finds. -/
theorem Elements.cloneWithin (h : Elements C t) (n : NodeId) (deep : Bool) (fuel : Nat) :
    Elements C (t.cloneWithin n deep fuel).1 := by
  induction fuel generalizing t n deep with
  | zero => exact h.alloc _ fun e he => h n e (by simp [element?, he])
  | succ fuel ih =>
    have h₀ : Elements C (t.alloc (t.get n).content (t.get n).owner).1 :=
      h.alloc _ fun e he => h n e (by simp [element?, he])
    cases deep with
    | false => exact h₀
    | true =>
      -- each turn clones a child and links the copy, which moves links only
      have hfold : ∀ (cs : List NodeId) (acc : Tree × NodeId), Elements C acc.1 →
          Elements C (cs.foldl (fun acc c =>
            ((acc.1.cloneWithin c true fuel).1.linkBefore t.size (acc.1.cloneWithin c true fuel).2 none,
              t.size)) acc).1 := by
        intro cs
        induction cs with
        | nil => exact fun _ h => h
        | cons c cs ihc =>
          intro acc hacc
          refine ihc _ ((ih hacc c true).of_element?_eq fun m => ?_)
          exact element?_eq_of_content_eq (content_linkBefore _ _ _ _) m
      exact hfold _ _ h₀

end Tree

namespace Mode

variable {C : Element → Prop}

theorem keeps_parentOf (mode : Mode) (ref : NodeId) :
    BuildM.Keeps (Tree.Elements C) (mode.parentOf ref) := by
  unfold parentOf
  refine (BuildM.keeps_read _).bind fun p => ?_
  split
  · exact BuildM.keeps_pure _
  · exact BuildM.triple_throw

/-- Attaching a node moves links only. -/
theorem keeps_attach (mode : Mode) (n ref : NodeId) :
    BuildM.Keeps (Tree.Elements C) (mode.attach n ref) := by
  have hedit : ∀ (f : Tree → Except TreeError Tree),
      (∀ t t', f t = .ok t' → ∀ m, (t'.get m).content = (t.get m).content) →
      BuildM.Keeps (Tree.Elements C) (BuildM.edit f) :=
    fun f hf => BuildM.triple_edit fun t t' h ht =>
      h.of_element?_eq (Tree.element?_eq_of_content_eq (hf t t' ht))
  unfold attach
  cases mode with
  | parent =>
    refine (hedit _ fun t t' ht => Tree.content_of_appendChild ht).bind fun _ => ?_
    exact (BuildM.keeps_read _).bind fun _ => BuildM.keeps_pure _
  | before =>
    refine (keeps_parentOf _ ref).bind fun p => ?_
    refine (hedit _ fun t t' ht => Tree.content_of_insertBefore ht).bind fun _ => ?_
    exact (BuildM.keeps_read _).bind fun _ => BuildM.keeps_pure _
  | after =>
    refine (keeps_parentOf _ ref).bind fun p => (BuildM.keeps_read _).bind fun next => ?_
    exact (hedit _ fun t t' ht => Tree.content_of_insertBefore ht).bind fun _ =>
      (BuildM.keeps_read _).bind fun _ => BuildM.keeps_pure _
  | replace =>
    refine (BuildM.keeps_read _).bind fun last => (keeps_parentOf _ ref).bind fun p => ?_
    exact (hedit _ fun t t' ht => Tree.content_of_replaceChild ht).bind fun _ => BuildM.keeps_pure _

end Mode

end Markup
