import Markup.Spec.Basic

/-!
# Chains of calls

A build or a flattening calls each callable it reaches and goes on into what the call returns,
so calls nest in chains. `Spec.reached` lists the bodies of the callables a spec reaches before
any call: those standing in it through list items and mapping values. `Spec.CallsWithin args d s`
says that every chain of nested calls from `s` ends within `d` calls, and `Spec.Settles args s`
that every chain ends. The program follows chains by plain recursion, which finishes on the specs
that settle.
-/

namespace Markup.Spec

mutual

/-- The bodies of the callables that stand in a spec through list items and mapping values, which
are called as soon as they are reached. -/
def reached : Spec → List Template
  | .list items => reachedItems items
  | .mapping entries => reachedEntries entries
  | .callable body => [body]
  | _ => []

def reachedItems : List Spec → List Template
  | [] => []
  | s :: ss => s.reached ++ reachedItems ss

def reachedEntries : List (String × Spec) → List Template
  | [] => []
  | (_, s) :: ss => s.reached ++ reachedEntries ss

end

/-- Every chain of nested calls from `s`, each call made with `args`, ends within `d` calls. -/
def CallsWithin (args : List Spec) : Nat → Spec → Prop
  | 0, s => s.reached = []
  | d + 1, s => ∀ b ∈ s.reached, CallsWithin args d (call b args)

instance instDecidableCallsWithin (args : List Spec) :
    (d : Nat) → (s : Spec) → Decidable (CallsWithin args d s)
  | 0, _ => decidable_of_iff _ List.isEmpty_iff
  | d + 1, s =>
    have := fun b => instDecidableCallsWithin args d (call b args)
    inferInstanceAs (Decidable (∀ b ∈ s.reached, CallsWithin args d (call b args)))

/-- Every chain of nested calls from `s` ends. -/
def Settles (args : List Spec) (s : Spec) : Prop :=
  ∃ d, CallsWithin args d s

variable {args : List Spec}

@[simp] theorem reached_list (items : List Spec) : (Spec.list items).reached = reachedItems items := by
  rw [reached]

@[simp] theorem reached_mapping (entries : List (String × Spec)) :
    (Spec.mapping entries).reached = reachedEntries entries := by
  rw [reached]

@[simp] theorem reached_callable (body : Template) : (Spec.callable body).reached = [body] := by
  rw [reached]

@[simp] theorem reachedItems_nil : reachedItems [] = [] := by
  rw [reachedItems]

@[simp] theorem reachedItems_cons (s : Spec) (ss : List Spec) :
    reachedItems (s :: ss) = s.reached ++ reachedItems ss := by
  rw [reachedItems]

@[simp] theorem reachedEntries_nil : reachedEntries [] = [] := by
  rw [reachedEntries]

@[simp] theorem reachedEntries_cons (k : String) (s : Spec) (ss : List (String × Spec)) :
    reachedEntries ((k, s) :: ss) = s.reached ++ reachedEntries ss := by
  rw [reachedEntries]

theorem mem_reachedItems {b : Template} {xs : List Spec} :
    b ∈ reachedItems xs ↔ ∃ x ∈ xs, b ∈ x.reached := by
  induction xs with
  | nil => simp
  | cons x xs ih => simp [ih]

theorem mem_reachedEntries {b : Template} {es : List (String × Spec)} :
    b ∈ reachedEntries es ↔ ∃ e ∈ es, b ∈ e.2.reached := by
  induction es with
  | nil => simp
  | cons e es ih =>
    obtain ⟨k, s⟩ := e
    simp [ih]

/-- A value's children, as a list, reach the callables the value reaches. -/
theorem reached_list_children (v : Spec) : (Spec.list v.children).reached = v.reached := by
  cases v <;> simp [children]

namespace CallsWithin

variable {d : Nat} {s x : Spec}

/-- A spec that reaches only callables `s` reaches settles within as many calls. -/
theorem of_reached (hx : ∀ b ∈ x.reached, b ∈ s.reached) (h : CallsWithin args d s) :
    CallsWithin args d x := by
  cases d with
  | zero =>
    change s.reached = [] at h
    change x.reached = []
    exact List.eq_nil_iff_forall_not_mem.2 fun b hb => by simpa [h] using hx b hb
  | succ d => exact fun b hb => h b (hx b hb)

theorem mono (h : CallsWithin args d s) {d' : Nat} (hd : d ≤ d') : CallsWithin args d' s := by
  induction d generalizing s d' with
  | zero =>
    cases d' with
    | zero => exact h
    | succ d' =>
      intro b hb
      change s.reached = [] at h
      simp [h] at hb
  | succ d ih =>
    obtain ⟨d', rfl⟩ : ∃ e, d' = e + 1 := ⟨d' - 1, by omega⟩
    exact fun b hb => ih (h b hb) (by omega)

/-- A body a spec reaches is called with one call fewer left. -/
theorem of_mem_reached {b : Template} (h : CallsWithin args d s) (hb : b ∈ s.reached) :
    ∃ d', d = d' + 1 ∧ CallsWithin args d' (call b args) := by
  cases d with
  | zero =>
    change s.reached = [] at h
    simp [h] at hb
  | succ d => exact ⟨d, rfl, h b hb⟩

@[simp] theorem callable_succ_iff {b : Template} :
    CallsWithin args (d + 1) (.callable b) ↔ CallsWithin args d (call b args) := by
  simp [CallsWithin]

theorem not_callable_zero {b : Template} : ¬ CallsWithin args 0 (.callable b) := by
  simp [CallsWithin]

theorem callable_iff {b : Template} :
    CallsWithin args d (.callable b) ↔ ∃ d', d = d' + 1 ∧ CallsWithin args d' (call b args) := by
  cases d with
  | zero => simp [CallsWithin]
  | succ d => simp [CallsWithin]

/-- A spec reaching exactly what two others reach settles when both do, within the same number
of calls. -/
theorem iff_of_reached_eq_append {y : Spec} (h : s.reached = x.reached ++ y.reached) :
    CallsWithin args d s ↔ CallsWithin args d x ∧ CallsWithin args d y := by
  cases d with
  | zero => simp [CallsWithin, h]
  | succ d => simp [CallsWithin, h, or_imp, forall_and]

theorem list_cons_iff {xs : List Spec} :
    CallsWithin args d (.list (x :: xs)) ↔ CallsWithin args d x ∧ CallsWithin args d (.list xs) :=
  iff_of_reached_eq_append (by simp)

theorem mapping_cons_iff {k : String} {es : List (String × Spec)} :
    CallsWithin args d (.mapping ((k, x) :: es)) ↔
      CallsWithin args d x ∧ CallsWithin args d (.mapping es) :=
  iff_of_reached_eq_append (by simp)

theorem of_mem {xs : List Spec} (h : CallsWithin args d (.list xs)) (hx : x ∈ xs) :
    CallsWithin args d x :=
  h.of_reached fun b hb => by simpa using mem_reachedItems.2 ⟨x, hx, hb⟩

theorem of_mem_entries {es : List (String × Spec)} {k : String}
    (h : CallsWithin args d (.mapping es)) (hx : (k, x) ∈ es) : CallsWithin args d x :=
  h.of_reached fun b hb => by simpa using mem_reachedEntries.2 ⟨(k, x), hx, hb⟩

/-- A value's children, as a list, settle within the value's calls. -/
theorem children (h : CallsWithin args d s) : CallsWithin args d (.list s.children) :=
  h.of_reached fun b hb => by rwa [reached_list_children] at hb

theorem settles (h : CallsWithin args d s) : s.Settles args := ⟨d, h⟩

end CallsWithin

end Markup.Spec
