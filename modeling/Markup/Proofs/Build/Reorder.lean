import Markup.Proofs.Spec.Reorder
import Markup.Proofs.Build.Coherent

/-!
# The order of a mapping's entries does not change a build

Building a spec and building it with the entries of its mappings in another order (at any
depth, in callable bodies too) have the same outcome: both fail, or both succeed with the same
node and the same tree (`build_reorder`). This holds for specs whose mappings have distinct keys,
as the program's specs do.

Two steps `Corresponds R x y` when, run on one tree, they both fail or both succeed with
results related by `R` and the same tree. Correspondence composes along binds, so each
branch of the interpreter is a chain of corresponding steps (`buildSpec_reorder`, by the
interpreter's own induction). The steps that read a mapping are the ones to check: finding the
designator, which sees the designator keys in another order but finds the same one or fails
alike (`Spec.ReorderEntries.findDesignator_some`), extending the namespace scope with the
declarations, which yields a scope with the same bindings (`declare_reorder`), and setting the
attributes, which sorts them in the attribute key order first (`materialize_reorder`).
-/

namespace Markup

namespace BuildM

/-- Two runs agree: both fail, or both succeed with results related by `R` and the same
tree. -/
def Agree {α β : Type} (R : α → β → Prop) : EStateM.Result BuildError Tree α →
    EStateM.Result BuildError Tree β → Prop
  | .ok a t, .ok b t' => R a b ∧ t = t'
  | .error _ _, .error _ _ => True
  | _, _ => False

/-- Two steps agree whenever they are run on the same tree. -/
def Corresponds {α β : Type} (R : α → β → Prop) (x : BuildM α) (y : BuildM β) : Prop :=
  ∀ t, Agree R (x t) (y t)

variable {α β γ δ : Type} {R : α → β → Prop} {S : γ → δ → Prop}

theorem Corresponds.bind {x : BuildM α} {y : BuildM β} {f : α → BuildM γ} {g : β → BuildM δ}
    (hx : Corresponds R x y) (hf : ∀ a b, R a b → Corresponds S (f a) (g b)) :
    Corresponds S (x >>= f) (y >>= g) := by
  intro t
  have hxy := hx t
  change Agree S (EStateM.bind x f t) (EStateM.bind y g t)
  unfold EStateM.bind
  cases hxt : x t <;> cases hyt : y t <;> rw [hxt, hyt] at hxy
  · obtain ⟨hab, rfl⟩ := hxy
    exact hf _ _ hab _
  · exact hxy.elim
  · exact hxy.elim
  · trivial

theorem corresponds_refl (x : BuildM α) : Corresponds Eq x x := by
  intro t
  cases x t with
  | ok a t' => exact ⟨rfl, rfl⟩
  | error e t' => trivial

theorem corresponds_of_eq {x y : BuildM α} (h : x = y) : Corresponds Eq x y :=
  h ▸ corresponds_refl x

theorem corresponds_pure {a : α} {b : β} (h : R a b) : Corresponds R (pure a) (pure b) :=
  fun _ => ⟨h, rfl⟩

theorem corresponds_throw {e e' : BuildError} : Corresponds R (throw e : BuildM α) (throw e') :=
  fun _ => trivial

theorem corresponds_throw_bind {e e' : BuildError} {f : α → BuildM γ} {g : β → BuildM δ} :
    Corresponds S (throw e >>= f) (throw e' >>= g) :=
  fun _ => trivial

/-- The same first step, then corresponding steps. -/
theorem Corresponds.bind_right {x : BuildM α} {f : α → BuildM γ} {g : α → BuildM δ}
    (hf : ∀ a, Corresponds S (f a) (g a)) : Corresponds S (x >>= f) (x >>= g) :=
  (corresponds_refl x).bind fun a _ h => h ▸ hf a

theorem Corresponds.mono {x : BuildM α} {y : BuildM β} {R' : α → β → Prop} (h : Corresponds R x y)
    (hR : ∀ a b, R a b → R' a b) : Corresponds R' x y := by
  intro t
  have hxy := h t
  cases hxt : x t <;> cases hyt : y t <;> rw [hxt, hyt] at hxy
  · exact ⟨hR _ _ hxy.1, hxy.2⟩
  · exact hxy.elim
  · exact hxy.elim
  · trivial

end BuildM

open BuildM

/-! ## Scopes with the same bindings -/

namespace Scope

theorem get?_declare_of_not_declarable (s : Scope) (attrs : List (String × Spec)) (args : List Spec)
    {p : String} (hp : ¬(p = "" ∨ Name.isNCName p = true)) :
    (s.declare attrs args).1.get? p = s.get? p := by
  rw [declare_fst]
  induction attrs generalizing s with
  | nil => rfl
  | cons a rest ih =>
    rw [List.foldl_cons, ih]
    unfold declareEntry
    split
    · next q uri hq _ =>
      rw [get?_bind, if_neg]
      rintro rfl
      exact hp (Xml.valid_of_declares? hq)
    · rfl

theorem namespaceOf?_congr {s s' : Scope} (h : s.get? = s'.get?) :
    s.namespaceOf? = s'.namespaceOf? := by
  funext p
  unfold namespaceOf? resolve?
  rw [h]

/-- The last value declared for a key, read off the key and text pairs of the entries. -/
theorem lastValue_eq_texts (entries : List (String × Spec)) (args : List Spec) (k : String) :
    lastValue entries args k =
      (((entries.map fun e => (e.1, Spec.flatten e.2 args)).filter (·.1 == k)).filterMap (·.2)).getLast? := by
  unfold lastValue
  rw [List.filter_map, List.filterMap_map]
  rfl

end Scope

section
variable {args args' : List Spec} (ha : List.Forall₂ Spec.Reorder args args')
  (hwa : ∀ a ∈ args, a.WellKeyed)
include ha hwa

/-- The key and text pairs of reordered entries, sorted, are the same. -/
theorem sortEntries_texts_reorder {es es' : List (String × Spec)} (h : Spec.ReorderEntries es es')
    (hs : (Spec.mapping es).WellKeyed) :
    Name.sortEntries (es.map fun e => (e.1, Spec.flatten e.2 args)) =
      Name.sortEntries (es'.map fun e => (e.1, Spec.flatten e.2 args')) := by
  obtain ⟨es₁, hes, hp⟩ := h
  have hmap : (es.map fun e => (e.1, Spec.flatten e.2 args)) =
      es₁.map fun e => (e.1, Spec.flatten e.2 args') :=
    Spec.entryTexts_reorder ha hwa id hes ((Spec.valuesWellKeyed_iff es).1 hs.2)
  have hkeys : ((es₁.map fun e => (e.1, Spec.flatten e.2 args')).map Prod.fst).Nodup := by
    rw [← hmap, List.map_map]
    exact hs.1
  rw [hmap]
  exact Name.sortEntries_eq_of_perm (hp.map _) hkeys

/-- Reordered declarations extend scopes with the same bindings to scopes with the same
bindings. -/
theorem declare_reorder {s s' : Scope} (hss : s.get? = s'.get?) {attrs attrs' : List (String × Spec)}
    (h : Spec.ReorderEntries attrs attrs') (hs : (Spec.mapping attrs).WellKeyed) :
    (s.declare attrs args).1.get? = (s'.declare attrs' args').1.get? := by
  funext p
  by_cases hp : p = "" ∨ Name.isNCName p = true
  · have hlast : Scope.lastValue attrs args (Xml.declarationName p) =
        Scope.lastValue attrs' args' (Xml.declarationName p) := by
      rw [Scope.lastValue_eq_texts, Scope.lastValue_eq_texts,
        ← Name.filter_sortEntries (attrs.map _), ← Name.filter_sortEntries (attrs'.map _),
        sortEntries_texts_reorder ha hwa h hs]
    rw [Scope.get?_declare s attrs args hp, Scope.get?_declare s' attrs' args' hp, hlast, hss]
  · rw [Scope.get?_declare_of_not_declarable s attrs args hp,
      Scope.get?_declare_of_not_declarable s' attrs' args' hp, hss]

end

/-! ## Reading a reordered mapping -/

/-- Setting an attribute entry reads its key, the text of its value and the namespaces of the
scope. -/
theorem setAttrEntry_congr (el : NodeId) {σ σ' : Scope} (hns : σ.namespaceOf? = σ'.namespaceOf?)
    {args args' : List Spec} (policy : Policy) {e e' : String × Spec}
    (h : (e.1, Spec.flatten e.2 args) = (e'.1, Spec.flatten e'.2 args')) :
    setAttrEntry el σ args policy e = setAttrEntry el σ' args' policy e' := by
  obtain ⟨k, v⟩ := e
  obtain ⟨k', v'⟩ := e'
  simp only [Prod.mk.injEq] at h
  obtain ⟨rfl, hf⟩ := h
  unfold setAttrEntry
  dsimp only
  rw [hf, hns]

theorem forM_setAttrEntry_congr (el : NodeId) {σ σ' : Scope} (hns : σ.namespaceOf? = σ'.namespaceOf?)
    {args args' : List Spec} (policy : Policy) {l l' : List (String × Spec)}
    (h : l.map (fun e => (e.1, Spec.flatten e.2 args)) = l'.map (fun e => (e.1, Spec.flatten e.2 args'))) :
    l.forM (setAttrEntry el σ args policy) = l'.forM (setAttrEntry el σ' args' policy) := by
  induction l generalizing l' with
  | nil =>
    cases l' with
    | nil => rfl
    | cons _ _ => cases h
  | cons e l ih =>
    cases l' with
    | nil => cases h
    | cons e' l' =>
      simp only [List.map_cons, List.cons.injEq] at h
      simp only [List.forM]
      rw [setAttrEntry_congr el hns policy h.1, ih h.2]

section
variable {args args' : List Spec} (ha : List.Forall₂ Spec.Reorder args args')
  (hwa : ∀ a ∈ args, a.WellKeyed)
include ha hwa

/-- Reordered attribute entries make the same element, with a scope of the same bindings for its
children. -/
theorem materialize_reorder (doc : NodeId) (tag : TagName) {σ σ' : Scope} (hσ : σ.get? = σ'.get?)
    {attrs attrs' : List (String × Spec)} (h : Spec.ReorderEntries attrs attrs')
    (hs : (Spec.mapping attrs).WellKeyed) (policy : Policy) :
    Corresponds (fun r r' => r.1 = r'.1 ∧ r.2.get? = r'.2.get?)
      (materialize doc tag σ attrs args policy) (materialize doc tag σ' attrs' args' policy) := by
  have hdecl := declare_reorder ha hwa hσ h hs
  have hns := Scope.namespaceOf?_congr hdecl
  -- the attributes are set in the attribute key order, which is the same for both
  have hsort : (Name.sortEntries attrs).map (fun e => (e.1, Spec.flatten e.2 args)) =
      (Name.sortEntries attrs').map (fun e => (e.1, Spec.flatten e.2 args')) := by
    rw [Name.map_sortEntries (fun e => (e.1, Spec.flatten e.2 args)) (fun _ => rfl),
      Name.map_sortEntries (fun e => (e.1, Spec.flatten e.2 args')) (fun _ => rfl)]
    exact sortEntries_texts_reorder ha hwa h hs
  have hrest : ∀ el, Corresponds (fun r r' => r.1 = r'.1 ∧ r.2.get? = r'.2.get?)
      ((Name.sortEntries attrs).forM (setAttrEntry el (σ.declare attrs args).1 args policy) >>=
        fun _ => pure (el, (σ.declare attrs args).1))
      ((Name.sortEntries attrs').forM (setAttrEntry el (σ'.declare attrs' args').1 args' policy) >>=
        fun _ => pure (el, (σ'.declare attrs' args').1)) := by
    intro el
    rw [forM_setAttrEntry_congr el hns policy hsort]
    exact Corresponds.bind_right fun _ => corresponds_pure ⟨rfl, hdecl⟩
  unfold materialize
  refine Corresponds.bind_right fun r => ?_
  obtain ⟨qualified, pfx⟩ := r
  dsimp only
  rw [hns]
  -- the element is made alike on both sides, unless both fail on an unbound prefix
  split
  · exact Corresponds.bind_right hrest
  · split
    · exact corresponds_throw_bind
    · exact Corresponds.bind_right hrest

theorem placeElement_reorder (pos : Position) (tag : TagName) {σ σ' : Scope} (hσ : σ.get? = σ'.get?)
    {attrs attrs' : List (String × Spec)} (h : Spec.ReorderEntries attrs attrs')
    (hs : (Spec.mapping attrs).WellKeyed) (policy : Policy) :
    Corresponds (fun r r' => r.1 = r'.1 ∧ r.2.1 = r'.2.1 ∧ r.2.2.get? = r'.2.2.get?)
      (placeElement pos σ tag attrs args policy) (placeElement pos σ' tag attrs' args' policy) := by
  unfold placeElement
  refine (materialize_reorder ha hwa pos.doc tag hσ h hs policy).bind fun r r' hr => ?_
  obtain ⟨el, inner⟩ := r
  obtain ⟨el', inner'⟩ := r'
  obtain ⟨rfl, hinner⟩ := hr
  exact Corresponds.bind_right fun _ => corresponds_pure ⟨rfl, rfl, hinner⟩

end

namespace Spec.ReorderEntries

variable {es es' : List (String × Spec)}

theorem length_eq (h : ReorderEntries es es') : es.length = es'.length := by
  obtain ⟨es₁, hes, hp⟩ := h
  exact hes.length_eq.trans hp.length_eq

theorem singleton {k : String} {v : Spec} (h : ReorderEntries [(k, v)] es') :
    ∃ v', es' = [(k, v')] ∧ Spec.Reorder v v' := by
  obtain ⟨es₁, hes, hp⟩ := h
  cases hes with
  | @cons _ b _ _ hab hrest =>
    cases hrest
    obtain ⟨k', v'⟩ := b
    obtain ⟨rfl, hv⟩ := hab
    exact ⟨v', List.perm_singleton.1 hp.symm, hv⟩

/-- Keeping the entries whose keys pass a test keeps a reordering. -/
theorem filter (p : String × Spec → Bool) (hp : ∀ e e' : String × Spec, e.1 = e'.1 → p e = p e')
    (h : ReorderEntries es es') : ReorderEntries (es.filter p) (es'.filter p) := by
  have hkey : ∀ l : List (String × Spec), l.filter p = l.filter (fun e => p (e.1, .null)) :=
    fun l => List.filter_congr fun e _ => hp e (e.1, .null) rfl
  obtain ⟨es₁, hes, hperm⟩ := h
  rw [hkey es, hkey es']
  exact ⟨_, hes.filter_key fun k => p (k, .null), hperm.filter _⟩

theorem attributeEntries (h : ReorderEntries es es') :
    ReorderEntries (attributeEntries es) (attributeEntries es') :=
  h.filter _ fun e e' he => by rw [he]

end Spec.ReorderEntries

theorem Spec.WellKeyed.attributeEntries {es : List (String × Spec)}
    (hs : (Spec.mapping es).WellKeyed) : (Spec.mapping (attributeEntries es)).WellKeyed := by
  have hw := (Spec.valuesWellKeyed_iff es).1 hs.2
  refine ⟨(List.filter_sublist.map Prod.fst).nodup hs.1, (Spec.valuesWellKeyed_iff _).2 ?_⟩
  exact fun e he => hw e (List.mem_filter.1 he).1

theorem Spec.WellKeyed.of_mem {es : List (String × Spec)} (hs : (Spec.mapping es).WellKeyed)
    {k : String} {v : Spec} (hv : (k, v) ∈ es) : v.WellKeyed :=
  (Spec.valuesWellKeyed_iff es).1 hs.2 _ hv

theorem Spec.Reorder.children {v v' : Spec} (h : Spec.Reorder v v') :
    List.Forall₂ Spec.Reorder v.children v'.children := by
  cases h with
  | list h => exact h
  | _ => exact .cons (by constructor <;> assumption) .nil

theorem Spec.WellKeyed.children {v : Spec} (hv : v.WellKeyed) : ∀ x ∈ v.children, x.WellKeyed := by
  cases v with
  | list items => exact (Spec.itemsWellKeyed_iff items).1 hv
  | _ =>
    intro x hx
    rw [List.mem_singleton.1 hx]
    exact hv

/-- The entries of an object spec whose keys are designators, with their designators. -/
def designators (es : List (String × Spec)) : List (String × Designator × Spec) :=
  es.filterMap fun e => (Designator.ofKey? e.1).map fun d => (e.1, d, e.2)

@[simp] theorem designators_nil : designators [] = [] := rfl

theorem designators_cons_of_ofKey? {k : String} {v : Spec} {d : Designator}
    (es : List (String × Spec)) (hd : Designator.ofKey? k = some d) :
    designators ((k, v) :: es) = (k, d, v) :: designators es := by
  simp [designators, hd]

theorem designators_cons_of_ofKey?_none {k : String} {v : Spec} (es : List (String × Spec))
    (hd : Designator.ofKey? k = none) : designators ((k, v) :: es) = designators es := by
  simp [designators, hd]

/-- Without designators the one found so far stands. -/
theorem findDesignator_of_designators_nil {found : Option (String × Designator × Spec)} :
    {es : List (String × Spec)} → designators es = [] → findDesignator found es = .ok found
  | [], _ => rfl
  | (k, v) :: es, h => by
    cases hd : Designator.ofKey? k with
    | none =>
      rw [designators_cons_of_ofKey?_none es hd] at h
      simp only [findDesignator, hd]
      exact findDesignator_of_designators_nil h
    | some d => simp [designators_cons_of_ofKey? es hd] at h

/-- A designator after one already found is an error. -/
theorem findDesignator_some_of_designators_ne_nil {f : String × Designator × Spec} :
    {es : List (String × Spec)} → designators es ≠ [] → ∃ e, findDesignator (some f) es = .error e
  | [], h => absurd rfl h
  | (k, v) :: es, h => by
    cases hd : Designator.ofKey? k with
    | none =>
      rw [designators_cons_of_ofKey?_none es hd] at h
      simp only [findDesignator, hd]
      exact findDesignator_some_of_designators_ne_nil h
    | some d => exact ⟨.ambiguousDesignators f.1 k, by simp only [findDesignator, hd]⟩

/-- The first designator is found, and the search fails exactly when there is a second. -/
theorem findDesignator_none_of_designators_cons {x : String × Designator × Spec}
    {rest : List (String × Designator × Spec)} :
    {es : List (String × Spec)} → designators es = x :: rest →
      (rest = [] → findDesignator none es = .ok (some x)) ∧
      (rest ≠ [] → ∃ e, findDesignator none es = .error e)
  | [], h => by cases h
  | (k, v) :: es, h => by
    cases hd : Designator.ofKey? k with
    | none =>
      rw [designators_cons_of_ofKey?_none es hd] at h
      simp only [findDesignator, hd]
      exact findDesignator_none_of_designators_cons h
    | some d =>
      rw [designators_cons_of_ofKey? es hd, List.cons.injEq] at h
      obtain ⟨rfl, rfl⟩ := h
      simp only [findDesignator, hd]
      exact ⟨findDesignator_of_designators_nil, findDesignator_some_of_designators_ne_nil⟩

/-- What the search finds is the one designator, if any; it fails on two or more. -/
theorem designators_eq_of_findDesignator {es : List (String × Spec)}
    {r : Option (String × Designator × Spec)} (h : findDesignator none es = .ok r) :
    designators es = r.toList := by
  rcases hd : designators es with _ | ⟨x, _ | ⟨y, rest⟩⟩
  · rw [findDesignator_of_designators_nil hd] at h
    cases h
    rfl
  · rw [(findDesignator_none_of_designators_cons hd).1 rfl] at h
    cases h
    rfl
  · obtain ⟨e, he⟩ := (findDesignator_none_of_designators_cons hd).2 (List.cons_ne_nil _ _)
    rw [he] at h
    cases h

theorem two_le_designators_of_findDesignator {es : List (String × Spec)} {e : BuildError}
    (h : findDesignator none es = .error e) : 2 ≤ (designators es).length := by
  rcases hd : designators es with _ | ⟨x, _ | ⟨y, rest⟩⟩
  · rw [findDesignator_of_designators_nil hd] at h
    cases h
  · rw [(findDesignator_none_of_designators_cons hd).1 rfl] at h
    cases h
  · simp

/-- Two designators related by reordering: the same key and designator, reordered values. -/
def Designated (x y : String × Designator × Spec) : Prop :=
  x.1 = y.1 ∧ x.2.1 = y.2.1 ∧ Spec.Reorder x.2.2 y.2.2

theorem SameKeys.designators {es es₁ : List (String × Spec)} (h : SameKeys Spec.Reorder es es₁) :
    List.Forall₂ Designated (designators es) (designators es₁) := by
  induction h with
  | nil => exact .nil
  | @cons a b _ _ hab _ ih =>
    obtain ⟨k, v⟩ := a
    obtain ⟨k', v'⟩ := b
    obtain ⟨rfl, hv⟩ := hab
    cases hd : Designator.ofKey? k with
    | none =>
      rw [designators_cons_of_ofKey?_none _ hd, designators_cons_of_ofKey?_none _ hd]
      exact ih
    | some d =>
      rw [designators_cons_of_ofKey? _ hd, designators_cons_of_ofKey? _ hd]
      exact .cons ⟨rfl, rfl, hv⟩ ih

namespace Spec.ReorderEntries

variable {es es' : List (String × Spec)}

theorem designators (h : ReorderEntries es es') :
    ∃ ds, List.Forall₂ Designated (Markup.designators es) ds ∧ ds.Perm (Markup.designators es') := by
  obtain ⟨es₁, hes, hp⟩ := h
  exact ⟨_, hes.designators, hp.filterMap _⟩

theorem length_designators (h : ReorderEntries es es') :
    (Markup.designators es).length = (Markup.designators es').length := by
  obtain ⟨ds, hd, hp⟩ := h.designators
  exact hd.length_eq.trans hp.length_eq

/-- Reordering keeps the search failing. -/
theorem findDesignator_error {e : BuildError} (h : ReorderEntries es es')
    (hfind : findDesignator none es = .error e) : ∃ e', findDesignator none es' = .error e' := by
  have hlen := h.length_designators ▸ two_le_designators_of_findDesignator hfind
  rcases hd : Markup.designators es' with _ | ⟨x, _ | ⟨y, rest⟩⟩
  · simp [hd] at hlen
  · simp [hd] at hlen
  · exact (findDesignator_none_of_designators_cons hd).2 (List.cons_ne_nil _ _)

/-- Reordering keeps an object without designator without one. -/
theorem findDesignator_none (h : ReorderEntries es es')
    (hfind : findDesignator none es = .ok none) : findDesignator none es' = .ok none := by
  have hlen := h.length_designators
  rw [designators_eq_of_findDesignator hfind] at hlen
  exact findDesignator_of_designators_nil (List.eq_nil_of_length_eq_zero hlen.symm)

/-- Reordering keeps the designator, its key and its value up to reordering. -/
theorem findDesignator_some {k : String} {d : Designator} {v : Spec} (h : ReorderEntries es es')
    (hfind : findDesignator none es = .ok (some (k, d, v))) :
    ∃ v', findDesignator none es' = .ok (some (k, d, v')) ∧ Spec.Reorder v v' := by
  obtain ⟨ds, hd, hp⟩ := h.designators
  rw [designators_eq_of_findDesignator hfind] at hd
  obtain ⟨⟨k', d', v'⟩, ⟨rfl, rfl, hv⟩, rfl⟩ : ∃ y, Designated (k, d, v) y ∧ ds = [y] := by
    cases hd with
    | cons hxy hrest => cases hrest; exact ⟨_, hxy, rfl⟩
  exact ⟨v', (findDesignator_none_of_designators_cons (List.perm_singleton.1 hp.symm)).1 rfl, hv⟩

end Spec.ReorderEntries

section
variable {args args' : List Spec} (ha : List.Forall₂ Spec.Reorder args args')
  (hwa : ∀ a ∈ args, a.WellKeyed)
include ha hwa

theorem tagOf_reorder {first first' : Spec} (h : Spec.Reorder first first') (hs : first.WellKeyed) :
    tagOf first args = tagOf first' args' := by
  have hflat := Spec.flatten_reorder ha hwa h hs
  -- only a two-item list is read item by item; every other spec is read as a whole
  cases h with
  | list hxy =>
    rcases hxy with _ | ⟨hp, _ | ⟨hl, hrest⟩⟩
    · dsimp only [tagOf]
      rw [hflat]
    · dsimp only [tagOf]
      rw [hflat]
    · cases hrest with
      | nil =>
        have hw := (Spec.itemsWellKeyed_iff _).1 hs
        dsimp only [tagOf]
        rw [Spec.flatten_reorder ha hwa hp (hw _ (by simp)),
          Spec.flatten_reorder ha hwa hl (hw _ (by simp))]
      | cons _ _ =>
        dsimp only [tagOf]
        rw [hflat]
  | _ =>
    dsimp only [tagOf]
    rw [hflat]

theorem buildReserved_reorder (pos : Position) (kind : Reserved) {cs cs' : List Spec}
    (hc : List.Forall₂ Spec.Reorder cs cs') (hcs : ∀ x ∈ cs, x.WellKeyed)
    {attrs attrs' : List (String × Spec)} (h : Spec.ReorderEntries attrs attrs')
    (hs : (Spec.mapping attrs).WellKeyed) :
    buildReserved pos kind cs attrs args = buildReserved pos kind cs' attrs' args' := by
  unfold buildReserved
  cases kind with
  | comment => rw [Spec.flattenItems_reorder ha hwa hc hcs]
  | cdata => rw [Spec.flattenItems_reorder ha hwa hc hcs]
  | instruction =>
    cases hc with
    | nil => rfl
    | cons hx hrest =>
      dsimp only
      rw [Spec.flatten_reorder ha hwa hx (hcs _ List.mem_cons_self),
        Spec.flattenEntries_reorder ha hwa "=" h hs,
        Spec.flattenItems_reorder ha hwa hrest fun x hx => hcs x (List.mem_cons_of_mem _ hx)]
  | doctype => rfl

end

/-! ## Building reordered specs -/

section
variable {policy : Policy} {args : List Spec} {fuel : Nat} {pos : Position} {scope : Scope}

theorem buildObject_of_error {entries : List (String × Spec)} {e : BuildError}
    (h : findDesignator none entries = .error e) :
    buildObject policy args fuel pos scope entries = throw e := by
  unfold buildObject
  split <;> rename_i h' <;> simp only [h, reduceCtorEq, Except.error.injEq] at h'
  rw [h']

theorem buildObject_of_reserved {entries : List (String × Spec)} {key : String} {kind : Reserved}
    {value : Spec} (h : findDesignator none entries = .ok (some (key, .reserved kind, value))) :
    buildObject policy args fuel pos scope entries =
      buildReserved pos kind value.children (attributeEntries entries) args := by
  unfold buildObject
  split <;> rename_i h' <;>
    simp only [h, reduceCtorEq, Except.ok.injEq, Option.some.injEq, Prod.mk.injEq] at h'
  obtain ⟨rfl, rfl, rfl⟩ := h'
  rfl

theorem buildObject_of_bare {entries : List (String × Spec)} {key : String} {value : Spec}
    (h : findDesignator none entries = .ok (some (key, .element, value))) (hc : value.children = []) :
    buildObject policy args fuel pos scope entries = throw .missingTagName := by
  unfold buildObject
  split <;> rename_i h' <;>
    simp only [h, reduceCtorEq, Except.ok.injEq, Option.some.injEq, Prod.mk.injEq] at h'
  obtain ⟨rfl, rfl, rfl⟩ := h'
  dsimp only
  split
  · rfl
  · next hc' => rw [hc] at hc'; cases hc'

theorem buildObject_of_element {entries : List (String × Spec)} {key : String} {value first : Spec}
    {rest : List Spec} (h : findDesignator none entries = .ok (some (key, .element, value)))
    (hc : value.children = first :: rest) :
    buildObject policy args fuel pos scope entries =
      BuildM.check (tagOf first args) >>= fun tag =>
        placeElement pos scope tag (attributeEntries entries) args policy >>= fun r =>
          match rest with
          | [] => pure r.2.1
          | c :: cs => buildList policy args fuel (Position.inside r.1 pos.doc) r.2.2 (c :: cs) := by
  unfold buildObject
  split <;> rename_i h' <;>
    simp only [h, reduceCtorEq, Except.ok.injEq, Option.some.injEq, Prod.mk.injEq] at h'
  obtain ⟨rfl, rfl, rfl⟩ := h'
  dsimp only
  split
  · next hc' => rw [hc] at hc'; cases hc'
  · next hc' =>
    rw [hc, List.cons.injEq] at hc'
    obtain ⟨rfl, rfl⟩ := hc'
    congr 1
    funext tag
    congr 1
    funext r
    cases rest <;> rfl

theorem buildObject_of_shorthand {key : String} {value : Spec} {q : QName}
    (h : findDesignator none [(key, value)] = .ok none) (hq : QName.parse? key = some q)
    (hdecl : q.isDeclaration = false) :
    buildObject policy args fuel pos scope [(key, value)] =
      placeElement pos scope (.qualified key) [] args policy >>= fun r =>
        match value.children with
        | [] => pure r.2.1
        | c :: cs => buildList policy args fuel (Position.inside r.1 pos.doc) r.2.2 (c :: cs) := by
  unfold buildObject
  split <;> rename_i h' <;> simp only [h, reduceCtorEq, Except.ok.injEq] at h'
  dsimp only
  simp only [hq, hdecl, Bool.false_eq_true, if_false]
  congr 1
  funext r
  split <;> rename_i hc <;> simp only [hc]

/-- A one-entry object whose key is a declaration or no qualified name names no element. -/
theorem buildObject_of_missing {key : String} {value : Spec}
    (h : findDesignator none [(key, value)] = .ok none)
    (hq : ∀ q, QName.parse? key = some q → q.isDeclaration = true) :
    buildObject policy args fuel pos scope [(key, value)] = throw (.missingDesignator [key]) := by
  unfold buildObject
  split <;> rename_i h' <;> simp only [h, reduceCtorEq, Except.ok.injEq] at h'
  dsimp only
  cases hk : QName.parse? key with
  | none => rfl
  | some q =>
    simp only [hq q hk, if_true]
    rfl

theorem buildObject_of_unmarked {entries : List (String × Spec)}
    (h : findDesignator none entries = .ok none) (hne : ∀ k v, entries ≠ [(k, v)]) :
    buildObject policy args fuel pos scope entries =
      throw (.missingDesignator (entries.map (·.1))) := by
  unfold buildObject
  split <;> rename_i h' <;> simp only [h, reduceCtorEq, Except.ok.injEq] at h'
  split
  · exact absurd rfl (hne _ _)
  · rfl

end

/-- An element's children are built alike from reordered children: none returns the
attachment point, more are built as a list under the element. -/
theorem corresponds_children {xs ys : List Spec} {a a' : NodeId}
    {f g : Spec → List Spec → BuildM NodeId} :
    List.Forall₂ Spec.Reorder xs ys → a = a' →
    (∀ c cs c' cs', xs = c :: cs → List.Forall₂ Spec.Reorder (c :: cs) (c' :: cs') →
      Corresponds Eq (f c cs) (g c' cs')) →
    Corresponds Eq
      (match xs with
        | [] => pure a
        | c :: cs => f c cs)
      (match ys with
        | [] => pure a'
        | c :: cs => g c cs)
  | .nil, haa, _ => corresponds_pure haa
  | .cons hc hcs, _, hfg => hfg _ _ _ _ rfl (.cons hc hcs)

/-- The empty entry list has no reordering but itself. -/
theorem Spec.ReorderEntries.nil : Spec.ReorderEntries [] [] := ⟨[], .nil, .nil⟩

section
variable {args args' : List Spec} (ha : List.Forall₂ Spec.Reorder args args')
  (hwa : ∀ a ∈ args, a.WellKeyed)
include ha hwa

/-- Building a spec and a reordering of it, in scopes with the same bindings, correspond: both
fail, or both make the same tree and return the same node. -/
theorem buildSpec_reorder (policy : Policy) (fuel : Nat) (pos : Position) {scope scope' : Scope}
    (hσ : scope.get? = scope'.get?) {s s' : Spec} (h : Spec.Reorder s s') (hs : s.WellKeyed) :
    Corresponds Eq (buildSpec policy args fuel pos scope s)
      (buildSpec policy args' fuel pos scope' s') := by
  -- one induction over the left build; the right build is taken apart along with it
  refine buildSpec.induct policy args
    (fun fuel pos scope s => ∀ scope' s', scope.get? = scope'.get? → Spec.Reorder s s' →
      s.WellKeyed →
      Corresponds Eq (buildSpec policy args fuel pos scope s)
        (buildSpec policy args' fuel pos scope' s'))
    (fun fuel pos scope es => ∀ scope' es', scope.get? = scope'.get? →
      Spec.ReorderEntries es es' → (Spec.mapping es).WellKeyed →
      Corresponds Eq (buildObject policy args fuel pos scope es)
        (buildObject policy args' fuel pos scope' es'))
    (fun fuel pos scope xs => ∀ scope' ys, scope.get? = scope'.get? →
      List.Forall₂ Spec.Reorder xs ys → (∀ x ∈ xs, x.WellKeyed) →
      Corresponds Eq (buildList policy args fuel pos scope xs)
        (buildList policy args' fuel pos scope' ys))
    (fun fuel pos scope xs => ∀ scope' ys, scope.get? = scope'.get? →
      List.Forall₂ Spec.Reorder xs ys → (∀ x ∈ xs, x.WellKeyed) →
      Corresponds Eq (buildItems policy args fuel pos scope xs)
        (buildItems policy args' fuel pos scope' ys))
    ?null ?list ?stop ?call ?node ?empty ?object ?bool ?number ?string ?failed ?declaration
    ?shorthand ?unparsed ?unmarked ?reserved ?bare ?element ?named ?nil ?single ?batch ?none
    ?some fuel pos scope s scope' s' hσ h hs
  case null =>
    intro fuel pos scope scope' s' _ h _
    cases h
    simp only [buildSpec]
    exact corresponds_refl _
  case list =>
    intro fuel pos scope items ih scope' s' hσ h hs
    obtain ⟨ys, rfl, hxy⟩ := Spec.Reorder.list_iff.1 h
    simp only [buildSpec]
    exact ih scope' ys hσ hxy ((Spec.itemsWellKeyed_iff items).1 hs)
  case stop =>
    intro pos scope body scope' s' _ h _
    obtain ⟨b', rfl, _⟩ := Spec.Reorder.callable_iff.1 h
    simp only [buildSpec]
    exact corresponds_refl _
  case call =>
    intro pos scope body fuel ih scope' s' hσ h hs
    obtain ⟨b', rfl, hb⟩ := Spec.Reorder.callable_iff.1 h
    simp only [buildSpec]
    exact ih scope' _ hσ (Template.instantiate_reorder ha hb) (Template.WellKeyed.instantiate hwa hs)
  case node =>
    intro fuel pos scope n scope' s' _ h _
    cases h
    simp only [buildSpec]
    exact corresponds_refl _
  case empty =>
    intro fuel pos scope scope' s' _ h _
    obtain ⟨es', rfl, hes⟩ := Spec.reorder_mapping_iff.1 h
    rw [List.eq_nil_of_length_eq_zero hes.length_eq.symm]
    simp only [buildSpec]
    exact corresponds_refl _
  case object =>
    intro fuel pos scope e es ih scope' s' hσ h hs
    obtain ⟨es', rfl, hes⟩ := Spec.reorder_mapping_iff.1 h
    cases es' with
    | nil => exact absurd hes.length_eq (by simp)
    | cons e' es' =>
      simp only [buildSpec]
      exact ih scope' _ hσ hes hs
  case bool =>
    intro fuel pos scope b scope' s' _ h _
    cases h
    simp only [buildSpec]
    exact corresponds_refl _
  case number =>
    intro fuel pos scope n scope' s' _ h _
    cases h
    simp only [buildSpec]
    exact corresponds_refl _
  case string =>
    intro fuel pos scope str scope' s' _ h _
    cases h
    simp only [buildSpec]
    exact corresponds_refl _
  case failed =>
    intro fuel pos scope entries e hfind scope' es' _ h _
    obtain ⟨e', hfind'⟩ := h.findDesignator_error hfind
    rw [buildObject_of_error hfind, buildObject_of_error hfind']
    exact corresponds_throw
  case declaration =>
    intro fuel pos scope key value q hq hdecl hfind _ _ scope' es' _ h _
    have hfind' := h.findDesignator_none hfind
    obtain ⟨value', rfl, _⟩ := h.singleton
    have hmissing : ∀ q', QName.parse? key = some q' → q'.isDeclaration = true := by
      intro q' hq'
      rw [hq, Option.some.injEq] at hq'
      exact hq' ▸ hdecl
    rw [buildObject_of_missing hfind hmissing, buildObject_of_missing hfind' hmissing]
    exact corresponds_throw
  case shorthand =>
    intro fuel pos scope key value q hq hdecl hfind _ ih scope' es' hσ h hs
    have hfind' := h.findDesignator_none hfind
    obtain ⟨value', rfl, hv⟩ := h.singleton
    have hdecl' : q.isDeclaration = false := Bool.eq_false_iff.2 hdecl
    have hw := (hs.of_mem (List.mem_singleton_self _)).children
    rw [buildObject_of_shorthand hfind hq hdecl', buildObject_of_shorthand hfind' hq hdecl']
    refine (placeElement_reorder ha hwa pos (.qualified key) hσ Spec.ReorderEntries.nil
      (⟨List.nodup_nil, trivial⟩ : (Spec.mapping []).WellKeyed) policy).bind fun r r' hr => ?_
    obtain ⟨hel, hatt, hinner⟩ := hr
    refine corresponds_children hv.children hatt fun c cs c' cs' hc hkids => ?_
    rw [← hel]
    exact ih r.1 r.2.2 c cs hc r'.2.2 _ hinner hkids (hc ▸ hw)
  case unparsed =>
    intro fuel pos scope key value hq hfind _ scope' es' _ h _
    have hfind' := h.findDesignator_none hfind
    obtain ⟨value', rfl, _⟩ := h.singleton
    have hmissing : ∀ q', QName.parse? key = some q' → q'.isDeclaration = true := by
      intro q' hq'
      rw [hq] at hq'
      cases hq'
    rw [buildObject_of_missing hfind hmissing, buildObject_of_missing hfind' hmissing]
    exact corresponds_throw
  case unmarked =>
    intro fuel pos scope entries hfind hne scope' es' _ h _
    have hfind' := h.findDesignator_none hfind
    -- reordering keeps the number of entries, so neither side has exactly one
    have hne' : ∀ k v, es' ≠ [(k, v)] := by
      intro k v he
      have hlen := h.length_eq
      rw [he] at hlen
      obtain ⟨x, rfl⟩ := List.length_eq_one_iff.1 hlen
      exact hne x.1 x.2 rfl
    rw [buildObject_of_unmarked hfind (fun k v he => hne k v he),
      buildObject_of_unmarked hfind' hne']
    exact corresponds_throw
  case reserved =>
    intro fuel pos scope entries key value kind hfind hmem scope' es' _ h hs
    obtain ⟨value', hfind', hv⟩ := h.findDesignator_some hfind
    rw [buildObject_of_reserved hfind, buildObject_of_reserved hfind']
    exact corresponds_of_eq (buildReserved_reorder ha hwa pos kind hv.children
      (hs.of_mem hmem).children h.attributeEntries hs.attributeEntries)
  case bare =>
    intro fuel pos scope entries key value hc hfind _ scope' es' _ h _
    obtain ⟨value', hfind', hv⟩ := h.findDesignator_some hfind
    have hc' : value'.children = [] := by
      have hkids := hv.children
      rw [hc] at hkids
      exact List.forall₂_nil_left_iff.1 hkids
    rw [buildObject_of_bare hfind hc, buildObject_of_bare hfind' hc']
    exact corresponds_throw
  case element =>
    intro fuel pos scope entries key value c cs hc hfind hmem ih scope' es' hσ h hs
    obtain ⟨value', hfind', hv⟩ := h.findDesignator_some hfind
    have hw := (hs.of_mem hmem).children
    rw [hc] at hw
    have hkids := hv.children
    rw [hc] at hkids
    obtain ⟨c', cs', hcc, hcs, hc'⟩ := List.forall₂_cons_left_iff.1 hkids
    rw [buildObject_of_element hfind hc, buildObject_of_element hfind' hc',
      tagOf_reorder ha hwa hcc (hw c List.mem_cons_self)]
    refine Corresponds.bind_right fun tag => ?_
    refine (placeElement_reorder ha hwa pos tag hσ h.attributeEntries hs.attributeEntries
      policy).bind fun r r' hr => ?_
    obtain ⟨hel, hatt, hinner⟩ := hr
    refine corresponds_children hcs hatt fun d ds d' ds' hd hkids' => ?_
    rw [← hel]
    exact ih r.1 r.2.2 d ds hd r'.2.2 _ hinner hkids'
      (hd ▸ fun x hx => hw x (List.mem_cons_of_mem _ hx))
  case named =>
    intro fuel pos scope entries key value name hfind hmem ih scope' es' hσ h hs
    obtain ⟨value', hfind', hv⟩ := h.findDesignator_some hfind
    have hw := (hs.of_mem hmem).children
    rw [buildObject_of_named hfind, buildObject_of_named hfind']
    refine (placeElement_reorder ha hwa pos (.qualified name) hσ h.attributeEntries
      hs.attributeEntries policy).bind fun r r' hr => ?_
    obtain ⟨hel, hatt, hinner⟩ := hr
    refine corresponds_children hv.children hatt fun c cs c' cs' hc hkids => ?_
    rw [← hel]
    exact ih r.1 r.2.2 c cs hc r'.2.2 _ hinner hkids (hc ▸ hw)
  case nil =>
    intro fuel pos scope scope' ys _ hxy _
    cases hxy
    simp only [buildList]
    exact corresponds_refl _
  case single =>
    intro fuel pos scope x ih scope' ys hσ hxy hs
    obtain ⟨y, ys', hxy', hrest, rfl⟩ := List.forall₂_cons_left_iff.1 hxy
    cases hrest
    simp only [buildList]
    exact ih scope' y hσ hxy' (hs x (List.mem_singleton_self x))
  case batch =>
    intro fuel pos scope x y rest ihx ihrest scope' ys hσ hxy hs
    obtain ⟨x', ys', hx, hrest, rfl⟩ := List.forall₂_cons_left_iff.1 hxy
    obtain ⟨y', rest', hy, hrest', rfl⟩ := List.forall₂_cons_left_iff.1 hrest
    simp only [buildList]
    refine Corresponds.bind_right fun frag => ?_
    refine (ihx frag scope' x' hσ hx (hs x List.mem_cons_self)).bind fun _ _ _ => ?_
    refine (ihrest frag scope' _ hσ (.cons hy hrest')
      fun z hz => hs z (List.mem_cons_of_mem _ hz)).bind fun _ _ _ => ?_
    exact corresponds_refl _
  case none =>
    intro fuel pos scope scope' ys _ hxy _
    cases hxy
    simp only [buildItems]
    exact corresponds_refl _
  case some =>
    intro fuel pos scope x rest ihx ihrest scope' ys hσ hxy hs
    obtain ⟨x', ys', hx, hrest, rfl⟩ := List.forall₂_cons_left_iff.1 hxy
    simp only [buildItems]
    exact (ihx scope' x' hσ hx (hs x List.mem_cons_self)).bind fun _ _ _ =>
      ihrest scope' _ hσ hrest fun z hz => hs z (List.mem_cons_of_mem _ hz)

end

/-! ## Reordered requests at any target -/

/-- The spec and arguments that options carry are well keyed. -/
def Options.WellKeyed (o : Options) : Prop :=
  (∀ c ∈ o.spec, c.WellKeyed) ∧ ∀ as ∈ o.args, ∀ a ∈ as, a.WellKeyed

/-- A target whose options carry well-keyed specs. -/
def Target.WellKeyed : Target → Prop
  | .node _ => True
  | .options o => o.WellKeyed

/-- The spec and arguments a build with these options builds: a carried spec takes the place of
the given one, whose items become the arguments when it is a list, and carried arguments take
the place of the arguments. -/
def Options.input (o : Options) (spec : Spec) (args : List Spec) : Spec × List Spec :=
  let picked := match o.spec with
    | some carried =>
      match spec with
      | .list items => (carried, items)
      | _ => (carried, args)
    | none => (spec, args)
  (picked.1, o.args.getD picked.2)

/-- Requests alike but for a reordering of their spec and arguments, which are well keyed. -/
structure Request.Reordered (r r' : Request) : Prop where
  mode : r.mode = r'.mode
  reference : r.reference = r'.reference
  anchor : r.anchor = r'.anchor
  doc : r.doc = r'.doc
  spec : Spec.Reorder r.spec r'.spec
  args : List.Forall₂ Spec.Reorder r.args r'.args
  wellKeyed : r.spec.WellKeyed
  argsWellKeyed : ∀ a ∈ r.args, a.WellKeyed

section
variable {args args' : List Spec} (ha : List.Forall₂ Spec.Reorder args args')
  (hwa : ∀ a ∈ args, a.WellKeyed)
include ha hwa

theorem Options.input_reorder {o : Options} (ho : o.WellKeyed) {s s' : Spec}
    (h : Spec.Reorder s s') (hs : s.WellKeyed) :
    Spec.Reorder (o.input s args).1 (o.input s' args').1 ∧
      List.Forall₂ Spec.Reorder (o.input s args).2 (o.input s' args').2 ∧
      (o.input s args).1.WellKeyed ∧ ∀ a ∈ (o.input s args).2, a.WellKeyed := by
  obtain ⟨hspec, hargs⟩ := ho
  unfold Options.input
  cases hsp : o.spec with
  | none =>
    cases hoa : o.args with
    | none => exact ⟨h, ha, hs, hwa⟩
    | some as => exact ⟨h, Spec.Reorder.reflItems as, hs, hargs as hoa⟩
  | some carried =>
    have hc := hspec carried hsp
    -- a list spec's items become the arguments; any other spec leaves them as they are
    cases h with
    | list hxy =>
      cases hoa : o.args with
      | none => exact ⟨.refl carried, hxy, hc, (Spec.itemsWellKeyed_iff _).1 hs⟩
      | some as => exact ⟨.refl carried, Spec.Reorder.reflItems as, hc, hargs as hoa⟩
    | _ =>
      cases hoa : o.args with
      | none => exact ⟨.refl carried, ha, hc, hwa⟩
      | some as => exact ⟨.refl carried, Spec.Reorder.reflItems as, hc, hargs as hoa⟩

theorem normalize_reorder {target : Target} (ht : target.WellKeyed) {s s' : Spec}
    (h : Spec.Reorder s s') (hs : s.WellKeyed) :
    Corresponds Request.Reordered (normalize target s args) (normalize target s' args') := by
  cases target with
  | node n =>
    unfold normalize
    exact Corresponds.bind_right fun doc => corresponds_pure ⟨rfl, rfl, rfl, rfl, h, ha, hs, hwa⟩
  | options o =>
    obtain ⟨hspec, hargs, hws, hwargs⟩ := Options.input_reorder ha hwa ht h hs
    -- every step reads only the options and the tree; the input shows only in the request
    have hreq : ∀ mode ref anchor doc, Request.Reordered
        ⟨mode, ref, anchor, doc, (o.input s args).1, (o.input s args).2⟩
        ⟨mode, ref, anchor, doc, (o.input s' args').1, (o.input s' args').2⟩ :=
      fun _ _ _ _ => ⟨rfl, rfl, rfl, rfl, hspec, hargs, hws, hwargs⟩
    unfold normalize
    dsimp only
    refine Corresponds.bind_right fun t => ?_
    cases checkBindings t none o.bindings with
    | error e => exact corresponds_throw
    | ok bound =>
      dsimp only
      refine Corresponds.bind_right fun bound => ?_
      cases bound with
      | none =>
        cases o.doc <;> exact Corresponds.bind_right fun _ => corresponds_pure (hreq _ _ _ _)
      | some b =>
        obtain ⟨mode, ref⟩ := b
        cases o.doc <;> refine Corresponds.bind_right fun _ => ?_ <;> cases o.pseudo <;> cases mode <;>
          exact Corresponds.bind_right fun _ => corresponds_pure (hreq _ _ _ _)

end

theorem run_reorder {r r' : Request} (h : Request.Reordered r r') (policy : Policy) :
    Corresponds Eq (run r policy) (run r' policy) := by
  obtain ⟨mode, ref, anchor, doc, spec, args⟩ := r
  obtain ⟨mode', ref', anchor', doc', spec', args'⟩ := r'
  obtain ⟨rfl, rfl, rfl, rfl, hspec, hargs, hws, hwa⟩ := h
  unfold run
  refine Corresponds.bind_right fun scope => ?_
  -- a reordering has as many callables, so calls may nest as deep on both sides
  dsimp only
  rw [Spec.callDepth_reorder hspec hargs]
  exact buildSpec_reorder hargs hwa policy _ _ rfl hspec hws

/-- The order of a mapping's entries, at any depth, does not matter: flattening a spec and a
reordering of it gives the same text, and building them at any target both fail or both make
the same tree and return the same node. The specs, arguments and carried options are well
keyed, as those read from JSON are. -/
theorem build_reorder (target : Target) (policy : Policy) (args : List Spec) {s s' : Spec}
    (h : Spec.Reorder s s') (hs : s.WellKeyed) (hwa : ∀ a ∈ args, a.WellKeyed)
    (ht : target.WellKeyed) :
    (∀ sep, Spec.flattenWith s args sep = Spec.flattenWith s' args sep) ∧
      ∀ t, Agree Eq (build target s args policy t) (build target s' args policy t) := by
  have ha := Spec.Reorder.reflItems args
  refine ⟨fun sep => Spec.flattenWith_reorder ha hwa sep h hs, ?_⟩
  unfold build
  exact (normalize_reorder ha hwa ht h hs).bind fun _ _ hr => run_reorder hr policy

/-- An element with two attributes, written in either order. -/
theorem build_reorder_attributes :
    let s := Spec.mapping [("#", .string "x"), ("a", .string "1"), ("b", .string "2")]
    let s' := Spec.mapping [("b", .string "2"), ("a", .string "1"), ("#", .string "x")]
    (∀ sep, Spec.flattenWith s [] sep = Spec.flattenWith s' [] sep) ∧
      ∀ t, Agree Eq (build (.node 0) s [] .strict t) (build (.node 0) s' [] .strict t) := by
  intro s s'
  have h : Spec.Reorder s s' :=
    .mapping rfl (Spec.Reorder.reflItems _) (List.reverse_perm _).symm
  exact build_reorder (.node 0) .strict [] h ⟨by decide, trivial, trivial, trivial, trivial⟩
    (fun _ h => absurd h List.not_mem_nil) trivial

end Markup
