import Mathlib.Data.List.Perm.Subperm
import Markup.Spec.Calls

/-!
# Every chain of calls that ends is short

A call returns its body with the arguments put in, so every callable met on a chain of nested
calls has the body of a callable written in the spec or in the arguments, nested ones included
(`Spec.bodies`). A body called with the same arguments returns the same spec, so a chain that
meets one body twice comes back to it forever (`Spec.CallsWithin.not_meets_self`). A chain that
ends therefore meets distinct bodies, no more of them than the spec and the arguments hold
callables, and `Spec.callDepth` nested calls suffice for every spec that settles
(`Spec.settles_iff`).
-/

namespace Markup

mutual

/-- The bodies of the callables in a template, nested ones included, one for each callable. -/
def Template.bodies : Template → List Template
  | .list items => Template.itemsBodies items
  | .mapping entries => Template.entriesBodies entries
  | .callable body => body :: body.bodies
  | _ => []

def Template.itemsBodies : List Template → List Template
  | [] => []
  | t :: ts => t.bodies ++ Template.itemsBodies ts

def Template.entriesBodies : List (String × Template) → List Template
  | [] => []
  | (_, t) :: ts => t.bodies ++ Template.entriesBodies ts

end

namespace Spec

mutual

/-- The bodies of the callables in a spec, nested ones included, one for each callable. -/
def bodies : Spec → List Template
  | .list items => itemsBodies items
  | .mapping entries => entriesBodies entries
  | .callable body => body :: body.bodies
  | _ => []

def itemsBodies : List Spec → List Template
  | [] => []
  | s :: ss => s.bodies ++ itemsBodies ss

def entriesBodies : List (String × Spec) → List Template
  | [] => []
  | (_, s) :: ss => s.bodies ++ entriesBodies ss

end

end Spec

/-! ## Bodies -/

theorem Template.length_bodies (t : Template) : t.bodies.length = t.callables := by
  refine Template.callables.induct
    (fun t => t.bodies.length = t.callables)
    (fun es => (Template.entriesBodies es).length = Template.entriesCallables es)
    (fun ts => (Template.itemsBodies ts).length = Template.itemsCallables ts)
    ?list ?mapping ?callable ?other ?nil ?cons ?enil ?econs t
  case list =>
    intro ts ih
    simp only [Template.bodies, Template.callables, ih]
  case mapping =>
    intro es ih
    simp only [Template.bodies, Template.callables, ih]
  case callable =>
    intro b ih
    simp only [Template.bodies, Template.callables, List.length_cons, ih]
  case other =>
    intro t hl hm hc
    cases t with
    | list => exact (hl _ rfl).elim
    | mapping => exact (hm _ rfl).elim
    | callable => exact (hc _ rfl).elim
    | _ => rfl
  case cons =>
    intro t ts iht ihts
    simp only [Template.itemsBodies, Template.itemsCallables, List.length_append, iht, ihts]
  case econs =>
    intro k t es iht ihes
    simp only [Template.entriesBodies, Template.entriesCallables, List.length_append, iht, ihes]
  all_goals rfl

/-- The bodies nested in a body of a template are bodies of the template. -/
theorem Template.mem_bodies_of_mem {t b c : Template} (hb : b ∈ t.bodies) (hc : c ∈ b.bodies) :
    c ∈ t.bodies := by
  refine Template.callables.induct
    (fun t => ∀ b ∈ t.bodies, c ∈ b.bodies → c ∈ t.bodies)
    (fun es => ∀ b ∈ Template.entriesBodies es, c ∈ b.bodies → c ∈ Template.entriesBodies es)
    (fun ts => ∀ b ∈ Template.itemsBodies ts, c ∈ b.bodies → c ∈ Template.itemsBodies ts)
    ?list ?mapping ?callable ?other ?nil ?cons ?enil ?econs t b hb hc
  case list =>
    intro ts ih
    simpa only [Template.bodies] using ih
  case mapping =>
    intro es ih
    simpa only [Template.bodies] using ih
  case callable =>
    intro body ih b hb hc
    simp only [Template.bodies, List.mem_cons] at hb ⊢
    rcases hb with rfl | hb
    · exact .inr hc
    · exact .inr (ih b hb hc)
  case other =>
    intro t hl hm hc b hb
    cases t with
    | list => exact (hl _ rfl).elim
    | mapping => exact (hm _ rfl).elim
    | callable => exact (hc _ rfl).elim
    | _ => simp [Template.bodies] at hb
  case nil =>
    intro b hb
    simp [Template.itemsBodies] at hb
  case cons =>
    intro t ts iht ihts b hb hc
    simp only [Template.itemsBodies, List.mem_append] at hb ⊢
    exact hb.imp (iht b · hc) (ihts b · hc)
  case enil =>
    intro b hb
    simp [Template.entriesBodies] at hb
  case econs =>
    intro k t es iht ihes b hb hc
    simp only [Template.entriesBodies, List.mem_append] at hb ⊢
    exact hb.imp (iht b · hc) (ihes b · hc)

namespace Spec

variable {args : List Spec}

theorem length_bodies (s : Spec) : s.bodies.length = s.callables := by
  refine Spec.callables.induct
    (fun s => s.bodies.length = s.callables)
    (fun es => (entriesBodies es).length = entriesCallables es)
    (fun xs => (itemsBodies xs).length = itemsCallables xs)
    ?list ?mapping ?callable ?other ?nil ?cons ?enil ?econs s
  case list =>
    intro xs ih
    simp only [bodies, callables, ih]
  case mapping =>
    intro es ih
    simp only [bodies, callables, ih]
  case callable =>
    intro b
    simp only [bodies, callables, List.length_cons, Template.length_bodies]
  case other =>
    intro s hl hm hc
    cases s with
    | list => exact (hl _ rfl).elim
    | mapping => exact (hm _ rfl).elim
    | callable => exact (hc _ rfl).elim
    | _ => rfl
  case cons =>
    intro x xs ihx ihxs
    simp only [itemsBodies, itemsCallables, List.length_append, ihx, ihxs]
  case econs =>
    intro k x es ihx ihes
    simp only [entriesBodies, entriesCallables, List.length_append, ihx, ihes]
  all_goals rfl

theorem length_itemsBodies (xs : List Spec) : (itemsBodies xs).length = itemsCallables xs :=
  length_bodies (.list xs)

/-- The bodies nested in a body of a spec are bodies of the spec. -/
theorem mem_bodies_of_mem {s : Spec} {b c : Template} (hb : b ∈ s.bodies) (hc : c ∈ b.bodies) :
    c ∈ s.bodies := by
  refine Spec.callables.induct
    (fun s => ∀ b ∈ s.bodies, c ∈ b.bodies → c ∈ s.bodies)
    (fun es => ∀ b ∈ entriesBodies es, c ∈ b.bodies → c ∈ entriesBodies es)
    (fun xs => ∀ b ∈ itemsBodies xs, c ∈ b.bodies → c ∈ itemsBodies xs)
    ?list ?mapping ?callable ?other ?nil ?cons ?enil ?econs s b hb hc
  case list =>
    intro xs ih
    simpa only [bodies] using ih
  case mapping =>
    intro es ih
    simpa only [bodies] using ih
  case callable =>
    intro body b hb hc
    simp only [bodies, List.mem_cons] at hb ⊢
    rcases hb with rfl | hb
    · exact .inr hc
    · exact .inr (Template.mem_bodies_of_mem hb hc)
  case other =>
    intro s hl hm hc b hb
    cases s with
    | list => exact (hl _ rfl).elim
    | mapping => exact (hm _ rfl).elim
    | callable => exact (hc _ rfl).elim
    | _ => simp [bodies] at hb
  case nil =>
    intro b hb
    simp [itemsBodies] at hb
  case cons =>
    intro x xs ihx ihxs b hb hc
    simp only [itemsBodies, List.mem_append] at hb ⊢
    exact hb.imp (ihx b · hc) (ihxs b · hc)
  case enil =>
    intro b hb
    simp [entriesBodies] at hb
  case econs =>
    intro k x es ihx ihes b hb hc
    simp only [entriesBodies, List.mem_append] at hb ⊢
    exact hb.imp (ihx b · hc) (ihes b · hc)

theorem mem_itemsBodies_of_mem {x : Spec} {xs : List Spec} {c : Template} (hx : x ∈ xs)
    (hc : c ∈ x.bodies) : c ∈ itemsBodies xs := by
  induction xs with
  | nil => simp at hx
  | cons y ys ih =>
    simp only [itemsBodies, List.mem_append]
    rcases List.mem_cons.1 hx with rfl | hx
    · exact .inl hc
    · exact .inr (ih hx)

/-- A callable a spec reaches is one of its callables. -/
theorem mem_bodies_of_reached {s : Spec} {b : Template} (hb : b ∈ s.reached) : b ∈ s.bodies := by
  refine Spec.callables.induct
    (fun s => b ∈ s.reached → b ∈ s.bodies)
    (fun es => b ∈ reachedEntries es → b ∈ entriesBodies es)
    (fun xs => b ∈ reachedItems xs → b ∈ itemsBodies xs)
    ?list ?mapping ?callable ?other ?nil ?cons ?enil ?econs s hb
  case list =>
    intro xs ih hb
    simp only [reached_list, bodies] at hb ⊢
    exact ih hb
  case mapping =>
    intro es ih hb
    simp only [reached_mapping, bodies] at hb ⊢
    exact ih hb
  case callable =>
    intro body hb
    simp only [reached_callable, List.mem_singleton] at hb
    simp [bodies, hb]
  case other =>
    intro s hl hm hc hb
    cases s with
    | list => exact (hl _ rfl).elim
    | mapping => exact (hm _ rfl).elim
    | callable => exact (hc _ rfl).elim
    | _ => simp [reached] at hb
  case nil =>
    intro hb
    simp at hb
  case cons =>
    intro x xs ihx ihxs hb
    simp only [reachedItems_cons, List.mem_append, itemsBodies] at hb ⊢
    exact hb.imp ihx ihxs
  case enil =>
    intro hb
    simp at hb
  case econs =>
    intro k x es ihx ihes hb
    simp only [reachedEntries_cons, List.mem_append, entriesBodies] at hb ⊢
    exact hb.imp ihx ihes

/-- A call's result holds callables of the template or of the arguments. -/
theorem mem_bodies_instantiate {t : Template} {c : Template} (hc : c ∈ (t.instantiate args).bodies) :
    c ∈ t.bodies ∨ c ∈ itemsBodies args := by
  refine Template.instantiate.induct
    (fun t => c ∈ (t.instantiate args).bodies → c ∈ t.bodies ∨ c ∈ itemsBodies args)
    (fun es => c ∈ entriesBodies (Template.instantiateEntries args es) →
      c ∈ Template.entriesBodies es ∨ c ∈ itemsBodies args)
    (fun ts => c ∈ itemsBodies (Template.instantiateItems args ts) →
      c ∈ Template.itemsBodies ts ∨ c ∈ itemsBodies args)
    ?null ?bool ?number ?string ?list ?mapping ?node ?callable ?arg ?args ?nil ?cons ?enil ?econs
    t hc
  case list =>
    intro ts ih hc
    simpa only [Template.instantiate, bodies, Template.bodies] using ih hc
  case mapping =>
    intro es ih hc
    simpa only [Template.instantiate, bodies, Template.bodies] using ih hc
  case callable =>
    intro body hc
    simp only [Template.instantiate, bodies] at hc
    exact .inl hc
  case arg =>
    intro i hc
    simp only [Template.instantiate, List.getD_eq_getElem?_getD] at hc
    cases hi : args[i]? with
    | none => simp [hi, bodies] at hc
    | some a =>
      rw [hi, Option.getD_some] at hc
      exact .inr (mem_itemsBodies_of_mem (List.mem_of_getElem? hi) hc)
  case args =>
    intro hc
    simp only [Template.instantiate, bodies] at hc
    exact .inr hc
  case cons =>
    intro t ts iht ihts hc
    simp only [Template.instantiateItems, itemsBodies, Template.itemsBodies, List.mem_append] at hc ⊢
    rcases hc with hc | hc
    · exact (iht hc).imp_left .inl
    · exact (ihts hc).imp_left .inr
  case econs =>
    intro k t es iht ihes hc
    simp only [Template.instantiateEntries, entriesBodies, Template.entriesBodies,
      List.mem_append] at hc ⊢
    rcases hc with hc | hc
    · exact (iht hc).imp_left .inl
    · exact (ihes hc).imp_left .inr
  all_goals
    intros
    simp_all [Template.instantiate, Template.instantiateItems, Template.instantiateEntries, bodies,
      itemsBodies, entriesBodies]

/-- The callables of `s` and of the arguments hold every callable a call of one of them
returns. -/
theorem mem_bodies_call {s : Spec} {b c : Template} (hb : b ∈ s.bodies ++ itemsBodies args)
    (hc : c ∈ (call b args).bodies) : c ∈ s.bodies ++ itemsBodies args := by
  rcases mem_bodies_instantiate hc with hc | hc
  · rcases List.mem_append.1 hb with hb | hb
    · exact List.mem_append_left _ (mem_bodies_of_mem hb hc)
    · exact List.mem_append_right _ (mem_bodies_of_mem (s := .list args) hb hc)
  · exact List.mem_append_right _ hc

/-! ## Chains of calls -/

/-- `c` is called on some chain of nested calls from `s`, each call made with `args`. -/
inductive Meets (args : List Spec) : Spec → Template → Prop
  | reached {s : Spec} {b : Template} : b ∈ s.reached → Meets args s b
  | step {s : Spec} {b c : Template} : b ∈ s.reached → Meets args (call b args) c → Meets args s c

/-- Every body a chain meets lies in any set of bodies that holds those of `s` and every
callable a call of one of its members returns. -/
theorem Meets.mem {U : List Template} (hU : ∀ b ∈ U, ∀ c ∈ (call b args).bodies, c ∈ U)
    {s : Spec} {c : Template} (hm : Meets args s c) (hs : ∀ b ∈ s.bodies, b ∈ U) : c ∈ U := by
  induction hm with
  | reached hb => exact hs _ (mem_bodies_of_reached hb)
  | step hb _ ih => exact ih (hU _ (hs _ (mem_bodies_of_reached hb)))

namespace CallsWithin

/-- A body met on a chain from a spec is called with fewer calls left. -/
theorem meets {d : Nat} {s : Spec} {c : Template} (h : s.CallsWithin args d) (hm : Meets args s c) :
    ∃ d', d' < d ∧ (call c args).CallsWithin args d' := by
  induction hm generalizing d with
  | reached hb =>
    obtain ⟨d', rfl, h'⟩ := h.of_mem_reached hb
    exact ⟨d', Nat.lt_succ_self d', h'⟩
  | step hb _ ih =>
    obtain ⟨d', rfl, h'⟩ := h.of_mem_reached hb
    obtain ⟨d'', hd'', h''⟩ := ih h'
    exact ⟨d'', by omega, h''⟩

/-- A call whose chains end never comes back to its own body. -/
theorem not_meets_self {d : Nat} {b : Template} (h : (call b args).CallsWithin args d) :
    ¬ Meets args (call b args) b := by
  induction d using Nat.strongRecOn with
  | _ d ih =>
    intro hm
    obtain ⟨d', hd', h'⟩ := h.meets hm
    exact ih d' hd' h' hm

end CallsWithin

/-- A spec that settles has its chains end within as many calls as there are bodies in a set
closed under calls, less those already met on the way to it (`V`), which it never meets again. -/
theorem callsWithin_of_nodup {U : List Template}
    (hU : ∀ b ∈ U, ∀ c ∈ (call b args).bodies, c ∈ U) :
    ∀ (n : Nat) (V : List Template) (x : Spec), V.Nodup → (∀ b ∈ V, b ∈ U) →
      U.length ≤ V.length + n → (∀ b ∈ x.bodies, b ∈ U) → (∀ b, Meets args x b → b ∉ V) →
      x.Settles args → x.CallsWithin args n := by
  -- a body reached from `x` is new, so adding it to the met ones keeps them distinct
  have hnew : ∀ (V : List Template) (x : Spec) (b : Template), V.Nodup → (∀ b ∈ V, b ∈ U) →
      (∀ b ∈ x.bodies, b ∈ U) → (∀ b, Meets args x b → b ∉ V) → b ∈ x.reached →
      (b :: V).Nodup ∧ ∀ c ∈ b :: V, c ∈ U := by
    intro V x b hV hVU hx hmet hb
    refine ⟨List.nodup_cons.2 ⟨hmet b (.reached hb), hV⟩, fun c hc => ?_⟩
    rcases List.mem_cons.1 hc with rfl | hc
    · exact hx c (mem_bodies_of_reached hb)
    · exact hVU c hc
  intro n
  induction n with
  | zero =>
    intro V x hV hVU hlen hx hmet _
    change x.reached = []
    refine List.eq_nil_iff_forall_not_mem.2 fun b hb => ?_
    obtain ⟨hV', hVU'⟩ := hnew V x b hV hVU hx hmet hb
    have := (hV'.subperm hVU').length_le
    simp only [List.length_cons] at this
    omega
  | succ n ih =>
    intro V x hV hVU hlen hx hmet hsettles b hb
    obtain ⟨hV', hVU'⟩ := hnew V x b hV hVU hx hmet hb
    -- the call settles, since `x` does, and never meets its own body
    obtain ⟨d, hd⟩ := hsettles
    obtain ⟨d', -, hd'⟩ := hd.of_mem_reached hb
    refine ih (b :: V) (call b args) hV' hVU' (by simp only [List.length_cons]; omega)
      (hU b (hx b (mem_bodies_of_reached hb))) (fun c hc hcV => ?_) ⟨d', hd'⟩
    rcases List.mem_cons.1 hcV with rfl | hcV
    · exact hd'.not_meets_self hc
    · exact hmet c (.step hb hc) hcV

/-- A spec settles exactly when its chains of calls end within `callDepth` calls. -/
theorem settles_iff {s : Spec} : s.Settles args ↔ s.CallsWithin args (s.callDepth args) := by
  refine ⟨fun h => ?_, CallsWithin.settles⟩
  have hlen : (s.bodies ++ itemsBodies args).length = s.callables + itemsCallables args := by
    rw [List.length_append, length_bodies, length_itemsBodies]
  have hn := callsWithin_of_nodup (fun b hb c hc => mem_bodies_call hb hc)
    (s.bodies ++ itemsBodies args).length [] s List.nodup_nil (by simp) (by simp)
    (fun b hb => List.mem_append_left _ hb) (fun _ _ => List.not_mem_nil) h
  exact hn.mono (by rw [hlen, callDepth]; omega)

theorem Settles.callsWithin_callDepth {s : Spec} (h : s.Settles args) :
    s.CallsWithin args (s.callDepth args) :=
  settles_iff.1 h

instance (s : Spec) : Decidable (s.Settles args) :=
  decidable_of_iff _ settles_iff.symm

end Spec

end Markup
