import Markup.Proofs.Spec.Unfold
import Markup.Proofs.Build.Reorder
import Markup.Proofs.Render.Namespaces

/-!
# Callables are transparent to a build

Building a spec and building it with callables replaced by their results on the build's
arguments (`Spec.Unfolds`) have the same outcome: both fail, or both succeed with the same tree
(`build_unfolds`). The node a build returns may differ: a named designator whose value is a
callable returning `[]` returns the element, while `[]` in its place returns the element's
attachment point.

The two builds are run side by side over the left build's own induction. Every step reads a
value only through its text (`Spec.flatten_unfolds`) or builds it, which calls a callable before
looking at what it returned; each side is allowed the nested calls its chains of calls need. Two
steps look at a value before calling it, and there callables stay: the tag name of an element
designator (`tagOf_unfolds`) and the value of a processing instruction (`buildReserved_unfolds`).
A target that carries a spec takes a given list as its arguments, which a callable returning that
list is not (`callable_differs_from_result`).
-/

namespace Markup

open BuildM Spec

namespace BuildM

variable {α β γ : Type} {R : α → β → Prop} {S : β → γ → Prop}

theorem Corresponds.trans {x : BuildM α} {y : BuildM β} {z : BuildM γ} (hxy : Corresponds R x y)
    (hyz : Corresponds S y z) : Corresponds (fun a c => ∃ b, R a b ∧ S b c) x z := by
  intro t
  have h₁ := hxy t
  have h₂ := hyz t
  cases hx : x t <;> cases hy : y t <;> cases hz : z t <;> rw [hx, hy] at h₁ <;> rw [hy, hz] at h₂
  · exact ⟨⟨_, h₁.1, h₂.1⟩, h₁.2.trans h₂.2⟩
  all_goals first | exact h₁.elim | exact h₂.elim | trivial

/-- A step agrees with itself on its outcome and tree. -/
theorem corresponds_self (x : BuildM α) : Corresponds (fun (_ _ : α) => True) x x :=
  (corresponds_refl x).mono fun _ _ _ => trivial

end BuildM

/-! ## Targets -/

/-- The arguments a build at the target calls callables with: those its options carry, else
the given ones. -/
def Target.callArgs : Target → List Spec → List Spec
  | .node _, args => args
  | .options o, args => o.args.getD args

/-- Whether the target's options carry a spec, which is built in place of the given one. -/
def Target.carriesSpec : Target → Bool
  | .node _ => false
  | .options o => o.spec.isSome

/-! ## Unfolded entries -/

namespace Spec.UnfoldsEntries

variable {args : List Spec} {es es' : List (String × Spec)}

theorem length_eq : {es es' : List (String × Spec)} → UnfoldsEntries args es es' →
    es.length = es'.length
  | _, _, .nil => rfl
  | _, _, .cons _ hrest => by rw [List.length_cons, List.length_cons, hrest.length_eq]

theorem singleton {k : String} {v : Spec} (h : UnfoldsEntries args [(k, v)] es') :
    ∃ v', es' = [(k, v')] ∧ Unfolds args (Place.ofKey k) v v' := by
  cases h with
  | cons hv hrest =>
    cases hrest
    exact ⟨_, rfl, hv⟩

/-- Keeping the entries whose keys pass a test keeps an unfolding. -/
theorem filter (p : String × Spec → Bool) (hp : ∀ e e' : String × Spec, e.1 = e'.1 → p e = p e') :
    {es es' : List (String × Spec)} → UnfoldsEntries args es es' →
      UnfoldsEntries args (es.filter p) (es'.filter p)
  | _, _, .nil => .nil
  | _, _, @UnfoldsEntries.cons _ k v v' _ _ hv hrest => by
    have hkey : p (k, v') = p (k, v) := hp _ _ rfl
    by_cases hpk : p (k, v) = true
    · simp only [List.filter_cons, hpk, hkey, if_true]
      exact .cons hv (hrest.filter p hp)
    · simp only [List.filter_cons, hpk, hkey, Bool.false_eq_true, if_false]
      exact hrest.filter p hp

theorem attributeEntries (h : UnfoldsEntries args es es') :
    UnfoldsEntries args (Markup.attributeEntries es) (Markup.attributeEntries es') :=
  h.filter _ fun e e' he => by rw [he]

/-- The designators of unfolded entries: the same keys and designators, each value unfolded at
its designator's place. -/
theorem designators (h : UnfoldsEntries args es es') :
    List.Forall₂ (fun x y => x.1 = y.1 ∧ x.2.1 = y.2.1 ∧
        Unfolds args (Place.ofDesignator x.2.1) x.2.2 y.2.2)
      (Markup.designators es) (Markup.designators es') := by
  induction es generalizing es' with
  | nil =>
    cases h
    exact .nil
  | cons e es ih =>
    cases h with
    | @cons k v v' _ es' hv hrest =>
      cases hd : Designator.ofKey? k with
      | none =>
        rw [designators_cons_of_ofKey?_none _ hd, designators_cons_of_ofKey?_none _ hd]
        exact ih hrest
      | some d =>
        have hp : Place.ofKey k = Place.ofDesignator d := by simp [Place.ofKey, hd]
        rw [designators_cons_of_ofKey? _ hd, designators_cons_of_ofKey? _ hd]
        exact .cons ⟨rfl, rfl, hp ▸ hv⟩ (ih hrest)

theorem findDesignator_error {e : BuildError} (h : UnfoldsEntries args es es')
    (hfind : findDesignator none es = .error e) : ∃ e', findDesignator none es' = .error e' := by
  have hlen := h.designators.length_eq ▸ two_le_designators_of_findDesignator hfind
  rcases hd : Markup.designators es' with _ | ⟨x, _ | ⟨y, rest⟩⟩
  · simp [hd] at hlen
  · simp [hd] at hlen
  · exact (findDesignator_none_of_designators_cons hd).2 (List.cons_ne_nil _ _)

theorem findDesignator_none (h : UnfoldsEntries args es es')
    (hfind : findDesignator none es = .ok none) : findDesignator none es' = .ok none := by
  have hd := h.designators
  rw [designators_eq_of_findDesignator hfind] at hd
  exact findDesignator_of_designators_nil (List.forall₂_nil_left_iff.1 hd)

/-- Unfolding keeps the designator and its key; its value is unfolded at its place. -/
theorem findDesignator_some {k : String} {d : Designator} {v : Spec} (h : UnfoldsEntries args es es')
    (hfind : findDesignator none es = .ok (some (k, d, v))) :
    ∃ v', findDesignator none es' = .ok (some (k, d, v')) ∧ Unfolds args (Place.ofDesignator d) v v' := by
  have hd := h.designators
  rw [designators_eq_of_findDesignator hfind] at hd
  obtain ⟨⟨k', d', v'⟩, rest, ⟨rfl, rfl, hv⟩, hrest, hds⟩ := List.forall₂_cons_left_iff.1 hd
  cases hrest
  exact ⟨v', (findDesignator_none_of_designators_cons hds).1 rfl, hv⟩

end Spec.UnfoldsEntries

/-- A one-entry object without designator has its value in a place built whole. -/
theorem Spec.Place.ofKey_of_findDesignator {k : String} {v : Spec}
    (h : findDesignator none [(k, v)] = .ok none) : Place.ofKey k = .any := by
  cases hd : Designator.ofKey? k with
  | none => simp [Place.ofKey, hd]
  | some d => simp [findDesignator, hd] at h

/-! ## Making an element -/

section
variable {args : List Spec}

theorem declare_congr (s : Scope) {attrs attrs' : List (String × Spec)}
    (h : attrs.map (fun e => (e.1, flatten e.2 args)) = attrs'.map (fun e => (e.1, flatten e.2 args))) :
    (s.declare attrs args).1 = (s.declare attrs' args).1 := by
  rw [Scope.declare_fst, Scope.declare_fst]
  induction attrs generalizing attrs' s with
  | nil =>
    cases attrs' with
    | nil => rfl
    | cons _ _ => cases h
  | cons a rest ih =>
    cases attrs' with
    | nil => cases h
    | cons a' rest' =>
      simp only [List.map_cons, List.cons.injEq, Prod.mk.injEq] at h
      obtain ⟨⟨hk, hf⟩, hrest⟩ := h
      have hentry : Scope.declareEntry args s a = Scope.declareEntry args s a' := by
        unfold Scope.declareEntry
        rw [hk, hf]
      rw [List.foldl_cons, List.foldl_cons, hentry]
      exact ih _ hrest

/-- An element is made from the keys of its attribute entries and their texts. -/
theorem materialize_congr (doc : NodeId) (tag : TagName) (σ : Scope) {attrs attrs' : List (String × Spec)}
    (h : attrs.map (fun e => (e.1, flatten e.2 args)) = attrs'.map (fun e => (e.1, flatten e.2 args)))
    (policy : Policy) :
    materialize doc tag σ attrs args policy = materialize doc tag σ attrs' args policy := by
  have hdecl := declare_congr σ h
  have hsort : (Name.sortEntries attrs).map (fun e => (e.1, flatten e.2 args)) =
      (Name.sortEntries attrs').map (fun e => (e.1, flatten e.2 args)) := by
    rw [Name.map_sortEntries (fun e => (e.1, flatten e.2 args)) (fun _ => rfl),
      Name.map_sortEntries (fun e => (e.1, flatten e.2 args)) (fun _ => rfl), h]
  unfold materialize
  simp only [hdecl, forM_setAttrEntry_congr _ rfl policy hsort]

end

section
variable {args : List Spec}

/-- The attribute entries of a mapping reach only callables the mapping reaches. -/
theorem Spec.CallsWithin.attributeEntries {d : Nat} {es : List (String × Spec)}
    (h : (Spec.mapping es).CallsWithin args d) :
    (Spec.mapping (Markup.attributeEntries es)).CallsWithin args d :=
  h.of_reached fun b hb => by
    obtain ⟨e, he, hb⟩ := mem_reachedEntries.1 (by simpa using hb)
    simpa using mem_reachedEntries.2 ⟨e, (List.mem_filter.1 he).1, hb⟩

theorem placeElement_unfolds (pos : Position) (σ : Scope) (tag : TagName)
    {attrs attrs' : List (String × Spec)} (h : UnfoldsEntries args attrs attrs')
    (hs : (Spec.mapping attrs).Settles args) (policy : Policy) :
    placeElement pos σ tag attrs args policy = placeElement pos σ tag attrs' args policy := by
  unfold placeElement
  rw [materialize_congr pos.doc tag σ (h.map_flatten id hs) policy]

/-- A tag name is read before anything in it is called. -/
theorem tagOf_unfolds {first first' : Spec} (h : Unfolds args .read first first')
    (hs : first.Settles args) : tagOf first args = tagOf first' args := by
  have hflat := flatten_unfolds h hs
  -- only a two-item list is read item by item; every other spec is read as a whole
  cases h with
  | refl => rfl
  | list _ hxy =>
    rcases hxy with _ | ⟨hp, _ | ⟨hl, hrest⟩⟩
    · rfl
    · dsimp only [tagOf]
      rw [hflat]
    · cases hrest with
      | nil =>
        obtain ⟨d, hd⟩ := hs
        obtain ⟨hsp, hsl⟩ := CallsWithin.list_cons_iff.1 hd
        dsimp only [tagOf]
        rw [flatten_unfolds hp hsp.settles,
          flatten_unfolds hl (CallsWithin.list_cons_iff.1 hsl).1.settles]
      | cons _ _ =>
        dsimp only [tagOf]
        rw [hflat]
  | mapping _ =>
    dsimp only [tagOf]
    rw [hflat]

/-- A comment or CDATA section is made from its value's text, a processing instruction from
the texts of its value's items. -/
theorem buildReserved_unfolds (pos : Position) (kind : Reserved) {v v' : Spec}
    (h : Unfolds args (Place.ofDesignator (.reserved kind)) v v') (hv : v.Settles args)
    {attrs attrs' : List (String × Spec)} (hattrs : UnfoldsEntries args attrs attrs')
    (hsattrs : (Spec.mapping attrs).Settles args) :
    buildReserved pos kind v.children attrs args = buildReserved pos kind v'.children attrs' args := by
  unfold buildReserved
  cases kind with
  | comment =>
    rw [flattenItems_children hv, flattenItems_children (h.settles hv), flatten_unfolds h hv]
  | cdata =>
    rw [flattenItems_children hv, flattenItems_children (h.settles hv), flatten_unfolds h hv]
  | instruction =>
    have hkids := Unfolds.read_children h
    have hskids : (Spec.list v.children).Settles args := by
      obtain ⟨d, hd⟩ := hv
      exact ⟨d, hd.children⟩
    generalize v.children = xs, v'.children = ys at hkids hskids
    cases hkids with
    | nil => rfl
    | cons hx hrest =>
      obtain ⟨d, hd⟩ := hskids
      obtain ⟨hsx, hsrest⟩ := CallsWithin.list_cons_iff.1 hd
      dsimp only
      rw [flatten_unfolds hx hsx.settles, flattenEntries_unfolds hattrs hsattrs "=",
        flattenItems_unfolds hrest hsrest.settles]
  | doctype => rfl

end

/-! ## Building unfolded specs -/

section
variable {policy : Policy} {args : List Spec}

/-- Building a value's children as a list builds the value. -/
theorem buildList_children (fuel : Nat) (pos : Position) (σ : Scope) (v : Spec) :
    buildList policy args fuel pos σ v.children = buildSpec policy args fuel pos σ v := by
  cases v with
  | list items => simp only [children, buildSpec]
  | _ => simp only [children, buildList]

/-- An element with no children returns its attachment point, and building an empty list
returns the reference: both leave the tree as it is. -/
theorem corresponds_children_match (fuel : Nat) (pos : Position) (σ : Scope) (a : NodeId)
    (xs : List Spec) :
    Corresponds (fun _ _ => True) (buildList policy args fuel pos σ xs)
      (match xs with
        | [] => pure a
        | c :: cs => buildList policy args fuel pos σ (c :: cs)) := by
  cases xs with
  | nil =>
    simp only [buildList]
    exact corresponds_pure trivial
  | cons c cs => exact corresponds_self _

/-- The children of an element, built from a value and from its unfolding, agree when building
the value's children agrees with building its unfolding. -/
theorem corresponds_unfolded_children {fuel m : Nat} {pos : Position} {σ : Scope} {v v' : Spec}
    {a a' : NodeId} (hv : Unfolds args .any v v')
    (ih : ∀ c cs, v.children = c :: cs → Corresponds (fun _ _ => True)
      (buildList policy args fuel pos σ (c :: cs)) (buildSpec policy args m pos σ v')) :
    Corresponds (fun _ _ => True)
      (match v.children with
        | [] => pure a
        | c :: cs => buildList policy args fuel pos σ (c :: cs))
      (match v'.children with
        | [] => pure a'
        | c :: cs => buildList policy args m pos σ (c :: cs)) := by
  rcases hc : v.children with _ | ⟨c, cs⟩
  · -- no children: the value is the empty list, and so is its unfolding
    have hv0 := eq_list_nil_of_children hc
    subst hv0
    obtain ⟨ys, rfl, hys⟩ := hv.list_inv
    cases hys
    exact corresponds_pure trivial
  · have hright : Corresponds (fun _ _ => True) (buildSpec policy args m pos σ v')
        (match v'.children with
          | [] => pure a'
          | c :: cs => buildList policy args m pos σ (c :: cs)) := by
      rw [← buildList_children]
      exact corresponds_children_match m pos σ a' v'.children
    exact ((ih c cs hc).trans hright).mono fun _ _ _ => trivial

/-- Building a spec and an unfolding of it on the build's arguments have the same outcome when
each is allowed the nested calls its chains of calls need: both fail, or both succeed with the
same tree. -/
theorem buildSpec_unfolds {fuel m : Nat} (pos : Position) (σ : Scope) {s s' : Spec}
    (h : Unfolds args .any s s') (hs : s.CallsWithin args fuel) (hs' : s'.CallsWithin args m) :
    Corresponds (fun _ _ => True) (buildSpec policy args fuel pos σ s)
      (buildSpec policy args m pos σ s') := by
  -- one induction over the left build; the right build is taken apart along with it, and a
  -- list is related to whatever value has it as children, so that a callable may stand for it
  refine buildSpec.induct policy args
    (fun fuel pos σ s => ∀ s' m, Unfolds args .any s s' → s.CallsWithin args fuel →
      s'.CallsWithin args m → Corresponds (fun _ _ => True) (buildSpec policy args fuel pos σ s)
        (buildSpec policy args m pos σ s'))
    (fun fuel pos σ es => ∀ es' m, UnfoldsEntries args es es' →
      (Spec.mapping es).CallsWithin args fuel → (Spec.mapping es').CallsWithin args m →
        Corresponds (fun _ _ => True) (buildObject policy args fuel pos σ es)
          (buildObject policy args m pos σ es'))
    (fun fuel pos σ xs => ∀ v v' m, v.children = xs → Unfolds args .any v v' →
      v.CallsWithin args fuel → v'.CallsWithin args m → Corresponds (fun _ _ => True)
        (buildList policy args fuel pos σ xs) (buildSpec policy args m pos σ v'))
    (fun fuel pos σ xs => ∀ ys m, UnfoldsItems args xs ys → (Spec.list xs).CallsWithin args fuel →
      (Spec.list ys).CallsWithin args m → Corresponds (fun _ _ => True)
        (buildItems policy args fuel pos σ xs) (buildItems policy args m pos σ ys))
    ?null ?list ?stop ?call ?node ?empty ?object ?bool ?number ?string ?failed ?declaration
    ?shorthand ?unparsed ?unmarked ?reserved ?bare ?element ?named ?nil ?single ?batch ?none
    ?some fuel pos σ s s' m h hs hs'
  case list =>
    intro fuel pos σ items ih s' m h hs hs'
    simp only [buildSpec]
    exact ih (.list items) s' m rfl h hs hs'
  case stop =>
    intro pos σ body s' m _ hs _
    exact absurd hs CallsWithin.not_callable_zero
  case call =>
    intro pos σ body fuel ih s' m h hs hs'
    rw [CallsWithin.callable_succ_iff] at hs
    rcases h.callable_inv with rfl | ⟨-, rfl⟩
    · -- the right side calls it too, within the calls it has left
      obtain ⟨m', rfl, hm'⟩ := CallsWithin.callable_iff.1 hs'
      simp only [buildSpec]
      exact ih _ m' (.refl _ _) hs hm'
    · simp only [buildSpec]
      exact ih _ m (.refl _ _) hs hs'
  case empty =>
    intro fuel pos σ s' m h _ _
    obtain ⟨es', rfl, hes⟩ := h.mapping_inv
    cases hes
    simp only [buildSpec]
    exact corresponds_self _
  case object =>
    intro fuel pos σ e es ih s' m h hs hs'
    obtain ⟨es', rfl, hes⟩ := h.mapping_inv
    cases hes with
    | cons hv hrest =>
      simp only [buildSpec]
      exact ih _ m (.cons hv hrest) hs hs'
  case failed =>
    intro fuel pos σ entries e hfind es' m h _ _
    obtain ⟨e', hfind'⟩ := h.findDesignator_error hfind
    rw [buildObject_of_error hfind, buildObject_of_error hfind']
    exact corresponds_throw
  case declaration =>
    intro fuel pos σ key value q hq hdecl hfind _ _ es' m h _ _
    have hfind' := h.findDesignator_none hfind
    obtain ⟨value', rfl, _⟩ := h.singleton
    have hmissing : ∀ q', QName.parse? key = some q' → q'.isDeclaration = true := by
      intro q' hq'
      rw [hq, Option.some.injEq] at hq'
      exact hq' ▸ hdecl
    rw [buildObject_of_missing hfind hmissing, buildObject_of_missing hfind' hmissing]
    exact corresponds_throw
  case shorthand =>
    intro fuel pos σ key value q hq hdecl hfind _ ih es' m h hs hs'
    have hfind' := h.findDesignator_none hfind
    obtain ⟨value', rfl, hv⟩ := h.singleton
    rw [Place.ofKey_of_findDesignator hfind] at hv
    have hdecl' : q.isDeclaration = false := Bool.eq_false_iff.2 hdecl
    have hval := (CallsWithin.mapping_cons_iff.1 hs).1
    have hval' := (CallsWithin.mapping_cons_iff.1 hs').1
    rw [buildObject_of_shorthand hfind hq hdecl', buildObject_of_shorthand hfind' hq hdecl']
    refine Corresponds.bind_right fun r => corresponds_unfolded_children hv fun c cs hc => ?_
    exact ih r.1 r.2.2 c cs hc value value' m hc hv hval hval'
  case unparsed =>
    intro fuel pos σ key value hq hfind _ es' m h _ _
    have hfind' := h.findDesignator_none hfind
    obtain ⟨value', rfl, _⟩ := h.singleton
    have hmissing : ∀ q', QName.parse? key = some q' → q'.isDeclaration = true := by
      intro q' hq'
      rw [hq] at hq'
      cases hq'
    rw [buildObject_of_missing hfind hmissing, buildObject_of_missing hfind' hmissing]
    exact corresponds_throw
  case unmarked =>
    intro fuel pos σ entries hfind hne es' m h _ _
    have hfind' := h.findDesignator_none hfind
    -- unfolding keeps the number of entries, so neither side has exactly one
    have hne' : ∀ k v, es' ≠ [(k, v)] := by
      intro k v he
      have hlen := h.length_eq
      rw [he] at hlen
      obtain ⟨x, rfl⟩ := List.length_eq_one_iff.1 hlen
      exact hne x.1 x.2 rfl
    rw [buildObject_of_unmarked hfind (fun k v he => hne k v he),
      buildObject_of_unmarked hfind' hne']
    exact corresponds_throw
  case reserved =>
    intro fuel pos σ entries key value kind hfind hmem es' m h hs _
    obtain ⟨value', hfind', hv⟩ := h.findDesignator_some hfind
    rw [buildObject_of_reserved hfind, buildObject_of_reserved hfind',
      buildReserved_unfolds pos kind hv (hs.of_mem_entries hmem).settles h.attributeEntries
        hs.attributeEntries.settles]
    exact corresponds_self _
  case bare =>
    intro fuel pos σ entries key value hc hfind _ es' m h _ _
    obtain ⟨value', hfind', hv⟩ := h.findDesignator_some hfind
    -- an element designator without children has the empty list as its value, kept as it is
    have hv0 := eq_list_nil_of_children hc
    subst hv0
    obtain ⟨ys, rfl, hys⟩ := hv.list_inv
    cases hys
    rw [buildObject_of_bare hfind hc, buildObject_of_bare hfind' hc]
    exact corresponds_throw
  case element =>
    intro fuel pos σ entries key value c cs hc hfind hmem ih es' m h hs hs'
    obtain ⟨value', hfind', hv⟩ := h.findDesignator_some hfind
    obtain ⟨c', cs', hc', hcc, hcs⟩ := hv.tag_children hc
    have hmem' := (mem_of_findDesignator hfind').resolve_left (by simp)
    obtain ⟨hfirst, hrest⟩ := (hs.of_mem_entries hmem).of_children_eq_cons hc
    have hrest' := ((hs'.of_mem_entries hmem').of_children_eq_cons hc').2
    rw [buildObject_of_element hfind hc, buildObject_of_element hfind' hc',
      tagOf_unfolds hcc hfirst.settles]
    refine Corresponds.bind_right fun tag => ?_
    rw [placeElement_unfolds pos σ tag h.attributeEntries hs.attributeEntries.settles policy]
    refine Corresponds.bind_right fun r => ?_
    have hkids : Unfolds args .any (.list cs) (.list cs') := .list (by decide) hcs
    exact corresponds_unfolded_children hkids fun d ds hd =>
      ih r.1 r.2.2 d ds hd (.list cs) (.list cs') m hd hkids hrest hrest'
  case named =>
    intro fuel pos σ entries key value name hfind hmem ih es' m h hs hs'
    obtain ⟨value', hfind', hv⟩ := h.findDesignator_some hfind
    have hmem' := (mem_of_findDesignator hfind').resolve_left (by simp)
    rw [buildObject_of_named hfind, buildObject_of_named hfind',
      placeElement_unfolds pos σ _ h.attributeEntries hs.attributeEntries.settles policy]
    refine Corresponds.bind_right fun r => corresponds_unfolded_children hv fun c cs hc => ?_
    exact ih r.1 r.2.2 c cs hc value value' m hc hv (hs.of_mem_entries hmem)
      (hs'.of_mem_entries hmem')
  case nil =>
    intro fuel pos σ v v' m hc hv _ _
    have hv0 := eq_list_nil_of_children hc
    subst hv0
    obtain ⟨ys, rfl, hys⟩ := hv.list_inv
    cases hys
    simp only [buildList, buildSpec]
    exact corresponds_pure trivial
  case single =>
    intro fuel pos σ x ih v v' m hc hv hs hs'
    rcases children_eq_singleton hc with rfl | rfl
    · -- a one-item list: its unfolding is a one-item list, built as its item
      obtain ⟨ys, rfl, hys⟩ := hv.list_inv
      cases hys with
      | cons hxy hnil =>
        cases hnil
        simp only [buildList, buildSpec]
        exact ih _ m hxy (CallsWithin.list_cons_iff.1 hs).1 (CallsWithin.list_cons_iff.1 hs').1
    · simp only [buildList]
      exact ih v' m hv hs hs'
  case batch =>
    intro fuel pos σ x y rest ihx ihrest v v' m hc hv hs hs'
    have hv0 := eq_list_of_children hc
    subst hv0
    obtain ⟨ys, rfl, hys⟩ := hv.list_inv
    rcases hys with _ | ⟨hx, _ | ⟨hy, hrest⟩⟩
    obtain ⟨hsx, hsrest⟩ := CallsWithin.list_cons_iff.1 hs
    obtain ⟨hsx', hsrest'⟩ := CallsWithin.list_cons_iff.1 hs'
    simp only [buildSpec, buildList]
    refine Corresponds.bind_right fun frag => ?_
    refine (ihx frag _ m hx hsx hsx').bind fun _ _ _ => ?_
    refine (ihrest frag _ m (.cons hy hrest) hsrest hsrest').bind fun _ _ _ => ?_
    exact corresponds_self _
  case none =>
    intro fuel pos σ ys m h _ _
    cases h
    simp only [buildItems]
    exact corresponds_self _
  case some =>
    intro fuel pos σ x rest ihx ihrest ys m h hs hs'
    cases h with
    | cons hxy hrest =>
      obtain ⟨hsx, hsrest⟩ := CallsWithin.list_cons_iff.1 hs
      obtain ⟨hsx', hsrest'⟩ := CallsWithin.list_cons_iff.1 hs'
      simp only [buildItems]
      exact (ihx _ m hxy hsx hsx').bind fun _ _ _ => ihrest _ m hrest hsrest hsrest'
  all_goals
    intros
    rename_i h _ _
    cases h
    simp only [buildSpec]
    exact corresponds_self _

end

/-! ## Building unfolded specs at any target -/

/-- Requests alike but for an unfolding of their spec on their arguments. -/
structure Request.Unfolded (r r' : Request) : Prop where
  mode : r.mode = r'.mode
  reference : r.reference = r'.reference
  anchor : r.anchor = r'.anchor
  doc : r.doc = r'.doc
  args : r.args = r'.args
  spec : Unfolds r.args .any r.spec r'.spec

theorem run_unfolds {r r' : Request} (h : Request.Unfolded r r') (hs : r.spec.Settles r.args)
    (policy : Policy) : Corresponds (fun _ _ => True) (run r policy) (run r' policy) := by
  obtain ⟨mode, ref, anchor, doc, spec, args⟩ := r
  obtain ⟨mode', ref', anchor', doc', spec', args'⟩ := r'
  obtain ⟨rfl, rfl, rfl, rfl, rfl, hspec⟩ := h
  unfold run
  refine Corresponds.bind_right fun scope => ?_
  -- each side is allowed the nested calls its chains of calls need
  exact buildSpec_unfolds _ scope hspec hs.callsWithin_callDepth
    (hspec.settles hs).callsWithin_callDepth

theorem normalize_unfolds {target : Target} (ht : target.carriesSpec = false) (args : List Spec)
    {s s' : Spec} (h : Unfolds (target.callArgs args) .any s s') :
    Corresponds (fun r r' => Request.Unfolded r r' ∧ r.args = target.callArgs args ∧ r.spec = s)
      (normalize target s args) (normalize target s' args) := by
  cases target with
  | node n =>
    unfold normalize
    exact Corresponds.bind_right fun doc =>
      corresponds_pure ⟨⟨rfl, rfl, rfl, rfl, rfl, h⟩, rfl, rfl⟩
  | options o =>
    rcases o with ⟨parent, before, after, replace, _ | carried, oargs, pseudo, doc⟩
    · -- every step reads only the options and the tree; the spec shows only in the request
      have hreq : ∀ mode ref anchor doc,
          Request.Unfolded ⟨mode, ref, anchor, doc, s, oargs.getD args⟩
            ⟨mode, ref, anchor, doc, s', oargs.getD args⟩ ∧
              oargs.getD args = oargs.getD args ∧ s = s :=
        fun _ _ _ _ => ⟨⟨rfl, rfl, rfl, rfl, rfl, h⟩, rfl, rfl⟩
      unfold normalize
      dsimp only
      refine Corresponds.bind_right fun t => ?_
      cases checkBindings t none (Options.bindings ⟨parent, before, after, replace, none, oargs,
        pseudo, doc⟩) with
      | error e => exact corresponds_throw
      | ok bound =>
        dsimp only
        refine Corresponds.bind_right fun bound => ?_
        cases bound with
        | none =>
          cases doc <;> exact Corresponds.bind_right fun _ => corresponds_pure (hreq _ _ _ _)
        | some b =>
          obtain ⟨mode, ref⟩ := b
          cases doc <;> refine Corresponds.bind_right fun _ => ?_ <;> cases pseudo <;>
            cases mode <;> exact Corresponds.bind_right fun _ => corresponds_pure (hreq _ _ _ _)
    · simp [Target.carriesSpec] at ht

/-- Building a spec whose chains of calls end and an unfolding of it, at a target that carries no
spec of its own, have the same outcome: both fail, or both succeed with the same tree. -/
theorem build_unfolds (target : Target) (ht : target.carriesSpec = false) (args : List Spec)
    (policy : Policy) {s s' : Spec} (h : Unfolds (target.callArgs args) .any s s')
    (hs : s.Settles (target.callArgs args)) :
    Corresponds (fun _ _ => True) (build target s args policy) (build target s' args policy) := by
  unfold build
  refine (normalize_unfolds ht args h).bind fun r _ hr => run_unfolds hr.1 ?_ policy
  rw [hr.2.1, hr.2.2]
  exact hs

/-- Callables are transparent wherever they are called as soon as they are reached. Replacing
callables by their results on the arguments (`Spec.Unfolds`, which leaves alone the top of an
element's or a processing instruction's designator value and an element's tag name) in a value
whose chains of calls end keeps its text flattened with the default pair separator, and with
any other when no callable at the top was replaced; and in a spec whose chains of calls end it
keeps the outcome of a build at any target that carries no spec of its own: both fail, or both
succeed with the same tree. -/
theorem callables_transparent {A : List Spec} :
    (∀ {p : Place} {v v' : Spec} (sep : String), Unfolds A p v v' → v.Settles A →
      (p = .any → sep = defaultSeparator) → flattenWith v A sep = flattenWith v' A sep) ∧
    ∀ (target : Target) (args : List Spec) (policy : Policy) {s s' : Spec},
      target.carriesSpec = false → target.callArgs args = A → Unfolds A .any s s' → s.Settles A →
        ∀ t, Agree (fun _ _ => True) (build target s args policy t)
          (build target s' args policy t) := by
  refine ⟨fun sep h hs hsep => flattenWith_unfolds h hs sep hsep, ?_⟩
  intro target args policy s s' ht hargs h hs
  subst hargs
  exact build_unfolds target ht args policy h hs

/-- A callable returning an argument that is itself a callable builds what that argument
builds. -/
theorem build_callable_returning_callable_argument :
    let A : List Spec := [.callable (.string "x")]
    (Spec.callable (.arg 0)).Settles A ∧
      ∀ t, Agree (fun _ _ => True) (build (.node 0) (.callable (.arg 0)) A .strict t)
        (build (.node 0) (.callable (.string "x")) A .strict t) := by
  intro A
  have hs : (Spec.callable (.arg 0)).Settles A := by decide
  exact ⟨hs, callables_transparent.2 (.node 0) A .strict rfl rfl (.call _) hs⟩

/-- Where a value is looked at before it is called, a callable is not its result: as an
element's tag name, a callable returning a prefix and local pair is flattened whole to a name
that is not valid; flattening a callable writes what it returns with the default pair separator,
not the one asked for; and a target that carries a spec takes a given list as the arguments,
but not a callable returning that list. -/
theorem callable_differs_from_result :
    let T : Tree := ⟨#[⟨.document, none, none, []⟩, ⟨.element ⟨none, "root", none, []⟩, some 0, none, []⟩]⟩
    let carrying : Target := .options { parent := some 1, spec := some (.callable .args) }
    ({} : RenderConfig).renderSpec
        (.mapping [("#", .list [.callable (.list [.string "", .string "x"])])]) [] =
          .error (.build (.invalidName " x")) ∧
      ({} : RenderConfig).renderSpec (.mapping [("#", .list [.list [.string "", .string "x"]])]) [] =
        .ok "<x/>" ∧
      flattenWith (.callable (.mapping [("k", .string "v")])) [] "=" = some "k: v" ∧
      flattenWith (.mapping [("k", .string "v")]) [] "=" = some "k=v" ∧
      ¬ Agree (fun _ _ => True) (build carrying (.callable (.list [.string "a"])) [] .strict T)
        (build carrying (.list [.string "a"]) [] .strict T) := by
  intro T carrying
  have hcalled : ({} : RenderConfig).renderSpec
      (.mapping [("#", .list [.callable (.list [.string "", .string "x"])])]) [] =
        .error (.build (.invalidName " x")) := by
    have hfind : findDesignator none [("#", Spec.list [.callable (.list [.string "", .string "x"])])] =
        .ok (some ("#", .element, .list [.callable (.list [.string "", .string "x"])])) := rfl
    have htag : tagOf (.callable (.list [.string "", .string "x"])) [] = .ok (.qualified " x") := by
      simp [tagOf, flatten, flattenWith, flattenFuel, callDepth, callables, itemsCallables,
        Template.callables, Template.itemsCallables, call, Template.instantiate,
        Template.instantiateItems, flattenItemsFuel]
    rw [RenderConfig.renderSpec, RenderConfig.buildInto_document _ _ rfl]
    simp only [buildSpec]
    rw [buildObject_of_element hfind rfl]
    simp only [htag, BuildM.check, pure_bind, placeElement, materialize]
    rfl
  have hpair : ({} : RenderConfig).renderSpec
      (.mapping [("#", .list [.list [.string "", .string "x"]])]) [] = .ok "<x/>" := by
    have hfind : findDesignator none [("#", Spec.list [.list [.string "", .string "x"]])] =
        .ok (some ("#", .element, .list [.list [.string "", .string "x"]])) := rfl
    have htag : tagOf (.list [.string "", .string "x"]) [] = .ok (.pair none "x") := by
      simp [tagOf, flatten_string]
    have hattrs : attributeEntries [("#", Spec.list [.list [.string "", .string "x"]])] = [] := rfl
    have hresolve : (TagName.pair none "x").resolve = .ok ("x", "") := rfl
    have hns : (Scope.empty.declare [] []).1.namespaceOf? "" = none := rfl
    have hsort : Name.sortEntries ([] : List (String × Spec)) = [] := by simp [Name.sortEntries]
    rw [RenderConfig.renderSpec, RenderConfig.buildInto_document _ _ rfl]
    simp only [buildSpec]
    rw [buildObject_of_element hfind rfl]
    simp only [htag, BuildM.check, pure_bind, placeElement, materialize, hattrs, hresolve, hns,
      hsort, List.forM]
    have hcond : (!"".isEmpty && Policy.permissive == Policy.strict) = false := rfl
    simp only [hcond, Bool.false_eq_true, if_false]
    rfl
  have hcallSep : flattenWith (.callable (.mapping [("k", .string "v")])) [] "=" = some "k: v" := by
    simp [flattenWith, flattenFuel, callDepth, callables, itemsCallables, Template.callables,
      Template.entriesCallables, call, Template.instantiate, Template.instantiateEntries,
      flattenEntriesFuel, Name.sortEntries, defaultSeparator]
  have hsep : flattenWith (.mapping [("k", .string "v")]) [] "=" = some "k=v" := by
    simp [flattenWith, flattenFuel, flattenEntriesFuel, Name.sortEntries]
  -- with a carried spec, the given list is the arguments the carried callable returns
  have hnorm₁ : normalize carrying (.callable (.list [.string "a"])) [] T =
      .ok ⟨.parent, 1, 1, 0, .callable .args, []⟩ T := rfl
  have hnorm₂ : normalize carrying (.list [.string "a"]) [] T =
      .ok ⟨.parent, 1, 1, 0, .callable .args, [.string "a"]⟩ T := rfl
  have hbuild₁ : build carrying (.callable (.list [.string "a"])) [] .strict T = .ok 1 T := by
    unfold build
    rw [bind_apply_of_eq_ok hnorm₁]
    simp only [run, buildSpec, callDepth, callables, Template.callables, itemsCallables]
    simp only [call, Template.instantiate, buildSpec, buildList]
    rfl
  have hbuild₂ : build carrying (.list [.string "a"]) [] .strict T =
      .ok 2 ⟨#[⟨.document, none, none, []⟩, ⟨.element ⟨none, "root", none, []⟩, some 0, none, [2]⟩,
        ⟨.text "a", some 0, some 1, []⟩]⟩ := by
    unfold build
    rw [bind_apply_of_eq_ok hnorm₂]
    simp only [run, buildSpec, callDepth, callables, Template.callables, itemsCallables]
    simp only [call, Template.instantiate, buildSpec, buildList]
    rfl
  have hcarried : ¬ Agree (fun _ _ => True)
      (build carrying (.callable (.list [.string "a"])) [] .strict T)
      (build carrying (.list [.string "a"]) [] .strict T) := by
    rw [hbuild₁, hbuild₂]
    exact fun h => absurd (congrArg Tree.size h.2) (by decide)
  exact ⟨hcalled, hpair, hcallSep, hsep, hcarried⟩

end Markup
