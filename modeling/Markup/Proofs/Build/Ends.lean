import Markup.Proofs.Build.Steps

/-!
# Where a build step ends, whether it succeeds or fails

`Triple` speaks of the steps that succeed. A step that fails keeps the tree it failed with, and
what that tree holds matters as much: `Ends x t Q E` says that the step `x`, run on `t`, ends in a
tree where `Q a` holds when it returns `a`, and in a tree where `E` holds when it fails. The rules
below follow a run step by step. The failure side is shared by all the steps of a run: a step that
fails ends the run there, so `E` is what every failing step must leave.
-/

namespace Markup

namespace BuildM

variable {α β : Type} {t : Tree} {Q Q' : α → Tree → Prop} {R : β → Tree → Prop}
  {E E' : Tree → Prop}

/-- The step `x`, run on `t`, ends in `Q a` when it returns `a` and in `E` when it fails. -/
structure Ends (x : BuildM α) (t : Tree) (Q : α → Tree → Prop) (E : Tree → Prop) : Prop where
  ok : ∀ {a t'}, x t = .ok a t' → Q a t'
  error : ∀ {e t'}, x t = .error e t' → E t'

/-- A run that fails failed in its first step, or in the rest after the first succeeded. -/
theorem bind_eq_error {x : BuildM α} {f : α → BuildM β} {e : BuildError} {t' : Tree}
    (h : (x >>= f) t = .error e t') :
    x t = .error e t' ∨ ∃ a t₁, x t = .ok a t₁ ∧ f a t₁ = .error e t' := by
  change EStateM.bind x f t = _ at h
  unfold EStateM.bind at h
  cases hxt : x t with
  | ok a t₁ =>
    rw [hxt] at h
    exact .inr ⟨a, t₁, rfl, h⟩
  | error e' t₁ =>
    rw [hxt] at h
    cases h
    exact .inl rfl

theorem Ends.bind {x : BuildM α} {f : α → BuildM β} (hx : Ends x t Q E)
    (hf : ∀ a t₁, Q a t₁ → Ends (f a) t₁ R E) : Ends (x >>= f) t R E where
  ok h := by
    obtain ⟨a, t₁, hxa, hfa⟩ := bind_eq_ok h
    exact (hf a t₁ (hx.ok hxa)).ok hfa
  error h := by
    rcases bind_eq_error h with hxe | ⟨a, t₁, hxa, hfa⟩
    · exact hx.error hxe
    · exact (hf a t₁ (hx.ok hxa)).error hfa

theorem Ends.mono {x : BuildM α} (h : Ends x t Q E) (hQ : ∀ a t', Q a t' → Q' a t')
    (hE : ∀ t', E t' → E' t') : Ends x t Q' E' :=
  ⟨fun hx => hQ _ _ (h.ok hx), fun hx => hE _ (h.error hx)⟩

theorem ends_pure (a : α) (h : Q a t) : Ends (pure a) t Q E where
  ok hx := by
    cases hx
    exact h
  error hx := by cases hx

theorem ends_throw (e : BuildError) (h : E t) : Ends (throw e : BuildM α) t Q E where
  ok hx := by cases hx
  error hx := by
    cases hx
    exact h

/-- A throw, whatever follows it. -/
theorem ends_throw_bind {f : α → BuildM β} {e : BuildError} (h : E t) :
    Ends (throw e >>= f) t R E :=
  (ends_throw e h : Ends (throw e : BuildM α) t (fun _ _ => False) E).bind fun _ _ h => h.elim

theorem ends_pure_bind {a : α} {f : α → BuildM β} (h : Ends (f a) t R E) :
    Ends (pure a >>= f) t R E :=
  ⟨h.ok, h.error⟩

theorem ends_read (f : Tree → α) (h : Q (f t) t) : Ends (read f) t Q E where
  ok hx := by
    cases hx
    exact h
  error hx := by cases hx

theorem ends_alloc (f : Tree → Tree × NodeId) {Q : NodeId → Tree → Prop} (h : Q (f t).2 (f t).1) :
    Ends (alloc f) t Q E where
  ok hx := by
    cases hx
    exact h
  error hx := by cases hx

/-- A refused edit fails and leaves the tree as it was. -/
theorem ends_edit (f : Tree → Except TreeError Tree) {Q : Unit → Tree → Prop}
    (hok : ∀ t', f t = .ok t' → Q () t') (herr : E t) : Ends (edit f) t Q E where
  ok hx := hok _ (edit_eq_ok hx)
  error hx := by
    simp only [edit] at hx
    split at hx
    · cases hx
    · cases hx
      exact herr

theorem ends_make (f : Tree → Except TreeError (Tree × NodeId)) {Q : NodeId → Tree → Prop}
    (hok : ∀ r, f t = .ok r → Q r.2 r.1) (herr : E t) : Ends (make f) t Q E where
  ok hx := hok _ (make_eq_ok hx)
  error hx := by
    simp only [make] at hx
    split at hx
    · cases hx
    · cases hx
      exact herr

theorem ends_check (r : Except BuildError α) (hok : ∀ a, r = .ok a → Q a t) (herr : E t) :
    Ends (check r) t Q E := by
  cases r with
  | error e => exact ends_throw e herr
  | ok a => exact ends_pure a (hok a rfl)

theorem ends_read_eq (f : Tree → α) : Ends (read f) t (fun a t' => a = f t ∧ t' = t) E :=
  ends_read f ⟨rfl, rfl⟩

theorem ends_alloc_eq (f : Tree → Tree × NodeId) :
    Ends (alloc f) t (fun n t' => n = (f t).2 ∧ t' = (f t).1) E :=
  ends_alloc f ⟨rfl, rfl⟩

/-- A loop whose every turn keeps `I`, whether it succeeds or fails, keeps `I`. -/
theorem ends_forM {γ : Type} {I : Tree → Prop} {g : γ → BuildM PUnit}
    (hg : ∀ c t₁, I t₁ → Ends (g c) t₁ (fun _ => I) I) :
    ∀ (cs : List γ) (t₁ : Tree), I t₁ → Ends (cs.forM g) t₁ (fun _ => I) I := by
  intro cs
  induction cs with
  | nil => exact fun _ h => ends_pure _ h
  | cons c cs ih => exact fun t₁ h => (hg c t₁ h).bind fun _ t₂ h₂ => ih t₂ h₂

end BuildM

end Markup
