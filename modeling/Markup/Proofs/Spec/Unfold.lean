import Markup.Proofs.Spec.Reorder
import Markup.Proofs.Spec.Calls

/-!
# Replacing callables by their results

A callable stands for what it returns on the build's arguments. `Spec.Unfolds args p s s'` says
that `s'` is `s` with callables replaced by their results on `args`, at any depth, wherever a
callable is called as soon as it is reached: an item of a list, the value of an attribute or of a
designator that is built or flattened whole, a value nested in one. Two designators read their
value before calling what stands in it, and there a callable stays as it is (`Spec.Place`): an
element designator, whose first item is the tag name and is read as a prefix and local pair when
it is a two-item list, and a processing-instruction designator, whose first item is the target
and the others the data.

An unfolding settles within as many calls as the spec it unfolds (`Spec.Unfolds.callsWithin`).
A flattening whose chains of calls end within the calls allowed gives the same text with more
allowed (`Spec.flattenFuel_eq_flattenWith`), and a value and its unfolding flatten alike
(`Spec.flattenFuel_unfolds`). A callable's result is flattened with the default pair separator:
a value and its unfolding flatten alike with that separator, and with any other when no callable
at the top was replaced (`Spec.flattenWith_unfolds`).
-/

namespace Markup

namespace Spec

/-- Where a value stands, as far as calling a callable that stands there goes. -/
inductive Place where
  /-- A value built or flattened whole: a callable there is called first. -/
  | any
  /-- A value whose items are read before anything in it is called: an element's tag name and
  a processing instruction's value. -/
  | read
  /-- An element designator's value, whose first item is the tag name. -/
  | tag
  deriving DecidableEq

/-- The place of a designator's value. -/
def Place.ofDesignator : Designator → Place
  | .element => .tag
  | .reserved .instruction => .read
  | _ => .any

/-- The place of a mapping value under its key: attribute values and ignored entries are
flattened or dropped whole. -/
def Place.ofKey (k : String) : Place :=
  ((Designator.ofKey? k).map Place.ofDesignator).getD .any

mutual

/-- `s'` is `s` with callables replaced by what they return for `args`; a callable is replaced
only where it stands at `.any`. -/
inductive Unfolds (args : List Spec) : Place → Spec → Spec → Prop
  | refl (p : Place) (s : Spec) : Unfolds args p s s
  | call (body : Template) : Unfolds args .any (.callable body) (Spec.call body args)
  | list {p : Place} {xs ys : List Spec} : p ≠ .tag → UnfoldsItems args xs ys →
      Unfolds args p (.list xs) (.list ys)
  /-- An element designator's list: the tag name is read, the other items are children. -/
  | tag {x y : Spec} {xs ys : List Spec} : Unfolds args .read x y → UnfoldsItems args xs ys →
      Unfolds args .tag (.list (x :: xs)) (.list (y :: ys))
  | mapping {p : Place} {es es' : List (String × Spec)} : UnfoldsEntries args es es' →
      Unfolds args p (.mapping es) (.mapping es')

/-- Items unfolded where they stand. -/
inductive UnfoldsItems (args : List Spec) : List Spec → List Spec → Prop
  | nil : UnfoldsItems args [] []
  | cons {x y : Spec} {xs ys : List Spec} : Unfolds args .any x y → UnfoldsItems args xs ys →
      UnfoldsItems args (x :: xs) (y :: ys)

/-- Entries with the same keys, each value unfolded at its key's place. -/
inductive UnfoldsEntries (args : List Spec) : List (String × Spec) → List (String × Spec) → Prop
  | nil : UnfoldsEntries args [] []
  | cons {k : String} {v v' : Spec} {es es' : List (String × Spec)} :
      Unfolds args (Place.ofKey k) v v' → UnfoldsEntries args es es' →
      UnfoldsEntries args ((k, v) :: es) ((k, v') :: es')

end

variable {args : List Spec}

theorem UnfoldsItems.refl (xs : List Spec) : UnfoldsItems args xs xs := by
  induction xs with
  | nil => exact .nil
  | cons x xs ih => exact .cons (.refl .any x) ih

theorem UnfoldsEntries.refl (es : List (String × Spec)) : UnfoldsEntries args es es := by
  induction es with
  | nil => exact .nil
  | cons e es ih => exact .cons (.refl _ e.2) ih

/-! ## Inverting an unfolding -/

namespace Unfolds

variable {p : Place} {s' : Spec}

/-- A value read before it is called is only unfolded inside. -/
theorem read_toAny (h : Unfolds args .read s s') : Unfolds args .any s s' := by
  cases h with
  | refl => exact .refl _ _
  | list _ h => exact .list (by decide) h
  | mapping h => exact .mapping h

/-- Every unfolding is one where the value stands whole. -/
theorem toAny (h : Unfolds args p s s') : Unfolds args .any s s' := by
  cases h with
  | refl => exact .refl _ _
  | call body => exact .call body
  | list _ h => exact .list (by decide) h
  | tag hx hxs => exact .list (by decide) (.cons hx.read_toAny hxs)
  | mapping h => exact .mapping h

theorem list_inv {xs : List Spec} (h : Unfolds args p (.list xs) s') :
    ∃ ys, s' = .list ys ∧ UnfoldsItems args xs ys := by
  have h' := h.toAny
  cases h' with
  | refl => exact ⟨xs, rfl, .refl xs⟩
  | list _ hxs => exact ⟨_, rfl, hxs⟩

theorem mapping_inv {es : List (String × Spec)} (h : Unfolds args p (.mapping es) s') :
    ∃ es', s' = .mapping es' ∧ UnfoldsEntries args es es' := by
  cases h with
  | refl => exact ⟨es, rfl, .refl es⟩
  | mapping h => exact ⟨_, rfl, h⟩

/-- A callable is kept, or replaced by its result where it stands whole. -/
theorem callable_inv {body : Template} (h : Unfolds args p (.callable body) s') :
    s' = .callable body ∨ p = .any ∧ s' = Spec.call body args := by
  cases h with
  | refl => exact .inl rfl
  | call => exact .inr ⟨rfl, rfl⟩

end Unfolds

/-! ## Chains of calls -/

mutual

/-- An unfolding settles within as many calls as the spec it unfolds. -/
theorem Unfolds.callsWithin {d : Nat} : {p : Place} → {s s' : Spec} → Unfolds args p s s' →
    s.CallsWithin args d → s'.CallsWithin args d
  | _, _, _, .refl _ _, h => h
  | _, _, _, .call _, h => by
    obtain ⟨d', rfl, h'⟩ := CallsWithin.callable_iff.1 h
    exact h'.mono (Nat.le_succ d')
  | _, _, _, .list _ hxs, h => hxs.callsWithin h
  | _, _, _, .tag hx hxs, h => by
    obtain ⟨h₁, h₂⟩ := CallsWithin.list_cons_iff.1 h
    exact CallsWithin.list_cons_iff.2 ⟨hx.callsWithin h₁, hxs.callsWithin h₂⟩
  | _, _, _, .mapping hes, h => hes.callsWithin h

theorem UnfoldsItems.callsWithin {d : Nat} : {xs ys : List Spec} → UnfoldsItems args xs ys →
    (Spec.list xs).CallsWithin args d → (Spec.list ys).CallsWithin args d
  | _, _, .nil, h => h
  | _, _, .cons hxy hrest, h => by
    obtain ⟨h₁, h₂⟩ := CallsWithin.list_cons_iff.1 h
    exact CallsWithin.list_cons_iff.2 ⟨hxy.callsWithin h₁, hrest.callsWithin h₂⟩

theorem UnfoldsEntries.callsWithin {d : Nat} : {es es' : List (String × Spec)} →
    UnfoldsEntries args es es' → (Spec.mapping es).CallsWithin args d →
      (Spec.mapping es').CallsWithin args d
  | _, _, .nil, h => h
  | _, _, .cons hv hrest, h => by
    obtain ⟨h₁, h₂⟩ := CallsWithin.mapping_cons_iff.1 h
    exact CallsWithin.mapping_cons_iff.2 ⟨hv.callsWithin h₁, hrest.callsWithin h₂⟩

end

theorem Unfolds.settles {p : Place} {s s' : Spec} (h : Unfolds args p s s') (hs : s.Settles args) :
    s'.Settles args := by
  obtain ⟨d, hd⟩ := hs
  exact ⟨d, h.callsWithin hd⟩

/-! ## Children -/

theorem eq_list_nil_of_children {v : Spec} (h : v.children = []) : v = .list [] := by
  cases v with
  | list items => rw [show items = [] from h]
  | _ => cases h

theorem children_eq_singleton {v x : Spec} (h : v.children = [x]) : v = .list [x] ∨ v = x := by
  cases v with
  | list items => exact .inl (by rw [show items = [x] from h])
  | _ => exact .inr (List.singleton_inj.1 h)

theorem eq_list_of_children {v x y : Spec} {rest : List Spec} (h : v.children = x :: y :: rest) :
    v = .list (x :: y :: rest) := by
  cases v with
  | list items => rw [show items = x :: y :: rest from h]
  | _ => simp [children] at h

/-- The first child of a value and the children after it settle within the value's calls. -/
theorem CallsWithin.of_children_eq_cons {d : Nat} {v c : Spec} {cs : List Spec}
    (h : v.CallsWithin args d) (hc : v.children = c :: cs) :
    c.CallsWithin args d ∧ (Spec.list cs).CallsWithin args d := by
  have hl := h.children
  rw [hc] at hl
  exact CallsWithin.list_cons_iff.1 hl

/-- The items of a processing instruction's value, unfolded where they stand. -/
theorem Unfolds.read_children {v v' : Spec} (h : Unfolds args .read v v') :
    UnfoldsItems args v.children v'.children := by
  cases h with
  | refl => exact .refl _
  | list _ hxs => exact hxs
  | mapping hes => exact .cons (.mapping hes) .nil

/-- An element designator's value unfolded: its tag name is read, and the children after it
are unfolded where they stand. -/
theorem Unfolds.tag_children {v v' c : Spec} {cs : List Spec} (h : Unfolds args .tag v v')
    (hc : v.children = c :: cs) :
    ∃ c' cs', v'.children = c' :: cs' ∧ Unfolds args .read c c' ∧ UnfoldsItems args cs cs' := by
  cases h with
  | refl => exact ⟨c, cs, hc, .refl _ _, .refl cs⟩
  | list hp _ => exact absurd rfl hp
  | tag hx hxs =>
    obtain ⟨rfl, rfl⟩ := List.cons.inj hc
    exact ⟨_, _, rfl, hx, hxs⟩
  | mapping hes =>
    obtain ⟨rfl, rfl⟩ := List.cons.inj hc
    exact ⟨_, [], rfl, .mapping hes, .nil⟩

/-! ## Flattening -/

/-- A value and its unfolding flatten alike when the calls allowed to each let its chains of
calls end; the pair separator must be the default one when a callable at the top was replaced. -/
theorem flattenFuel_unfolds {fuel m : Nat} {sep : String} {p : Place} {s s' : Spec}
    (h : Unfolds args p s s') (hsep : p = .any → sep = defaultSeparator)
    (hs : s.CallsWithin args fuel) (hs' : s'.CallsWithin args m) :
    flattenFuel fuel args sep s = flattenFuel m args sep s' := by
  -- one induction over the left flattening; the right one is taken apart along with it
  refine flattenFuel.induct args
    (fun fuel sep s => ∀ p s' m, Unfolds args p s s' → (p = .any → sep = defaultSeparator) →
      s.CallsWithin args fuel → s'.CallsWithin args m →
        flattenFuel fuel args sep s = flattenFuel m args sep s')
    (fun fuel es => ∀ es' m, UnfoldsEntries args es es' → (Spec.mapping es).CallsWithin args fuel →
      (Spec.mapping es').CallsWithin args m →
        flattenEntriesFuel fuel args es = flattenEntriesFuel m args es')
    (fun fuel xs => ∀ ys m, UnfoldsItems args xs ys → (Spec.list xs).CallsWithin args fuel →
      (Spec.list ys).CallsWithin args m → flattenItemsFuel fuel args xs = flattenItemsFuel m args ys)
    ?null ?node ?bool ?number ?string ?stop ?call ?list ?mapping ?enil ?econs ?inil ?icons
    fuel sep s p s' m h hsep hs hs'
  case stop =>
    intro sep body p s' m _ _ hs _
    exact absurd hs CallsWithin.not_callable_zero
  case call =>
    intro sep body fuel ih p s' m h hsep hs hs'
    rw [CallsWithin.callable_succ_iff] at hs
    rcases h.callable_inv with rfl | ⟨rfl, rfl⟩
    · -- the right side calls it too, within the calls it has left
      obtain ⟨m', rfl, hm'⟩ := CallsWithin.callable_iff.1 hs'
      simp only [flattenFuel]
      exact ih .any _ m' (.refl _ _) (fun _ => rfl) hs hm'
    · rw [hsep rfl]
      simp only [flattenFuel]
      exact ih .any _ m (.refl _ _) (fun _ => rfl) hs hs'
  case list =>
    intro fuel sep xs ih p s' m h _ hs hs'
    obtain ⟨ys, rfl, hys⟩ := h.list_inv
    simp only [flattenFuel]
    rw [ih ys m hys hs hs']
  case mapping =>
    intro fuel sep es ih p s' m h _ hs hs'
    obtain ⟨es', rfl, hes⟩ := h.mapping_inv
    simp only [flattenFuel]
    rw [ih es' m hes hs hs']
  case enil =>
    intro fuel es' m h _ _
    cases h
    simp only [flattenEntriesFuel]
  case econs =>
    intro fuel k x es ihx ihes es' m h hs hs'
    cases h with
    | @cons _ _ y _ es' hxy hes =>
      obtain ⟨hx, hrest⟩ := CallsWithin.mapping_cons_iff.1 hs
      obtain ⟨hy, hrest'⟩ := CallsWithin.mapping_cons_iff.1 hs'
      simp only [flattenEntriesFuel]
      rw [ihx _ y m hxy (fun _ => rfl) hx hy, ihes es' m hes hrest hrest']
  case inil =>
    intro fuel ys m h _ _
    cases h
    simp only [flattenItemsFuel]
  case icons =>
    intro fuel x xs ihx ihxs ys m h hs hs'
    cases h with
    | @cons _ y _ ys hxy hys =>
      obtain ⟨hx, hrest⟩ := CallsWithin.list_cons_iff.1 hs
      obtain ⟨hy, hrest'⟩ := CallsWithin.list_cons_iff.1 hs'
      simp only [flattenItemsFuel]
      rw [ihx _ y m hxy (fun _ => rfl) hx hy, ihxs ys m hys hrest hrest']
  all_goals
    intros
    rename_i h _ _ _
    cases h
    simp only [flattenFuel]

/-- A value whose chains of calls end within `fuel` calls flattens with `fuel` nested calls
allowed as with the `callDepth` that `flattenWith` allows: more calls change nothing. -/
theorem flattenFuel_eq_flattenWith {fuel : Nat} (sep : String) {s : Spec}
    (hs : s.CallsWithin args fuel) : flattenFuel fuel args sep s = flattenWith s args sep :=
  flattenFuel_unfolds (.refl .read s) (fun h => absurd h (by decide)) hs
    hs.settles.callsWithin_callDepth

/-- A value whose chains of calls end and its unfolding flatten alike with the default pair
separator, and with any other when no callable at the top was replaced. -/
theorem flattenWith_unfolds {p : Place} {s s' : Spec} (h : Unfolds args p s s')
    (hs : s.Settles args) (sep : String) (hsep : p = .any → sep = defaultSeparator) :
    flattenWith s args sep = flattenWith s' args sep :=
  flattenFuel_unfolds h hsep hs.callsWithin_callDepth (h.settles hs).callsWithin_callDepth

theorem flatten_unfolds {p : Place} {s s' : Spec} (h : Unfolds args p s s') (hs : s.Settles args) :
    flatten s args = flatten s' args :=
  flattenWith_unfolds h hs defaultSeparator fun _ => rfl

/-- The texts of a value's children, joined, are the value's own text. -/
theorem flattenItems_children {s : Spec} (hs : s.Settles args) :
    flattenItems s.children args = (flatten s args).getD "" := by
  cases s with
  | list items =>
    have hitems := hs.callsWithin_callDepth
    simp only [children, flattenItems, flatten, flattenWith, flattenFuel, Option.getD_some,
      flattenItemsFuel_eq_map]
    congr 1
    refine List.map_congr_left fun x hx => ?_
    rw [flattenFuel_eq_flattenWith _ (hitems.of_mem hx)]
    rfl
  | _ => simp only [children, flattenItems, List.map_cons, List.map_nil, String.intercalate_singleton]

theorem UnfoldsItems.map_flatten {γ : Type} (F : Option String → γ) :
    {xs ys : List Spec} → UnfoldsItems args xs ys → (Spec.list xs).Settles args →
      xs.map (fun x => F (flatten x args)) = ys.map fun x => F (flatten x args)
  | _, _, .nil, _ => rfl
  | _, _, .cons hxy hrest, hs => by
    obtain ⟨_, hs⟩ := hs
    obtain ⟨hx, hxs⟩ := CallsWithin.list_cons_iff.1 hs
    rw [List.map_cons, List.map_cons, flatten_unfolds hxy hx.settles, hrest.map_flatten F hxs.settles]

theorem UnfoldsEntries.map_flatten {γ : Type} (F : Option String → γ) :
    {es es' : List (String × Spec)} → UnfoldsEntries args es es' → (Spec.mapping es).Settles args →
      es.map (fun e => (e.1, F (flatten e.2 args))) = es'.map fun e => (e.1, F (flatten e.2 args))
  | _, _, .nil, _ => rfl
  | _, _, .cons hv hrest, hs => by
    obtain ⟨_, hs⟩ := hs
    obtain ⟨hx, hes⟩ := CallsWithin.mapping_cons_iff.1 hs
    rw [List.map_cons, List.map_cons, flatten_unfolds hv hx.settles, hrest.map_flatten F hes.settles]

theorem flattenItems_unfolds {xs ys : List Spec} (h : UnfoldsItems args xs ys)
    (hs : (Spec.list xs).Settles args) : flattenItems xs args = flattenItems ys args := by
  unfold flattenItems
  rw [h.map_flatten (·.getD "") hs]

theorem flattenEntries_unfolds {es es' : List (String × Spec)} (h : UnfoldsEntries args es es')
    (hs : (Spec.mapping es).Settles args) (sep : String) :
    flattenEntries es args sep = flattenEntries es' args sep := by
  unfold flattenEntries
  rw [h.map_flatten (·.getD "") hs]

end Spec

end Markup
