import Markup.Proofs.Build.Element
import Mathlib.Data.List.Forall2

/-!
# Reordering the entries of mappings

`Spec.Reorder s s'` says that `s'` is `s` with the entries of its mappings put in another
order, at any depth: inside lists, inside the values of mappings, and inside the bodies of
callables, whose templates are reordered by `Template.Reorder`. In the specs the program is
given, the keys of a mapping are distinct (`Spec.WellKeyed`).

Nothing that reads specs sees the order of a mapping's entries. Flattening writes a mapping in
the attribute key order, which puts entries with distinct keys in one order whatever order they
came in (`Name.sortEntries_eq_of_perm`); the callables count the same, so flattening is given
the same number of nested calls (`Spec.callDepth_reorder`); and a callable returns reordered
specs for reordered arguments (`Template.instantiate_reorder`). So a value and its reordering
flatten to the same text (`Spec.flattenWith_reorder`).
-/

namespace Markup

/-- Lists of entries with the same keys in the same order, their values related by `R`. -/
def SameKeys {α β : Type} (R : α → β → Prop) (es : List (String × α)) (es' : List (String × β)) :
    Prop :=
  List.Forall₂ (fun a b => a.1 = b.1 ∧ R a.2 b.2) es es'

/-- `t'` is `t` with the entries of its mappings in another order, at any depth. -/
inductive Template.Reorder : Template → Template → Prop
  | null : Template.Reorder .null .null
  | bool (b : Bool) : Template.Reorder (.bool b) (.bool b)
  | number (n : Number) : Template.Reorder (.number n) (.number n)
  | string (s : String) : Template.Reorder (.string s) (.string s)
  | node (id : NodeId) : Template.Reorder (.node id) (.node id)
  | arg (i : Nat) : Template.Reorder (.arg i) (.arg i)
  | args : Template.Reorder .args .args
  | callable {b b' : Template} : Template.Reorder b b' → Template.Reorder (.callable b) (.callable b')
  | list {ts ts' : List Template} : List.Forall₂ Template.Reorder ts ts' →
      Template.Reorder (.list ts) (.list ts')
  /-- The values are reordered where they stand, then the entries are permuted. -/
  | mapping {es es' es'' : List (String × Template)} : es.map Prod.fst = es'.map Prod.fst →
      List.Forall₂ Template.Reorder (es.map Prod.snd) (es'.map Prod.snd) → es'.Perm es'' →
      Template.Reorder (.mapping es) (.mapping es'')

/-- `s'` is `s` with the entries of its mappings in another order, at any depth. -/
inductive Spec.Reorder : Spec → Spec → Prop
  | null : Spec.Reorder .null .null
  | bool (b : Bool) : Spec.Reorder (.bool b) (.bool b)
  | number (n : Number) : Spec.Reorder (.number n) (.number n)
  | string (s : String) : Spec.Reorder (.string s) (.string s)
  | node (id : NodeId) : Spec.Reorder (.node id) (.node id)
  | callable {b b' : Template} : Template.Reorder b b' → Spec.Reorder (.callable b) (.callable b')
  | list {xs ys : List Spec} : List.Forall₂ Spec.Reorder xs ys → Spec.Reorder (.list xs) (.list ys)
  /-- The values are reordered where they stand, then the entries are permuted. -/
  | mapping {es es' es'' : List (String × Spec)} : es.map Prod.fst = es'.map Prod.fst →
      List.Forall₂ Spec.Reorder (es.map Prod.snd) (es'.map Prod.snd) → es'.Perm es'' →
      Spec.Reorder (.mapping es) (.mapping es'')

mutual

/-- Every mapping in the template has distinct keys. -/
def Template.WellKeyed : Template → Prop
  | .list items => Template.ItemsWellKeyed items
  | .mapping entries => (entries.map Prod.fst).Nodup ∧ Template.ValuesWellKeyed entries
  | .callable body => body.WellKeyed
  | _ => True

/-- Every item of the list is well keyed. -/
def Template.ItemsWellKeyed : List Template → Prop
  | [] => True
  | t :: ts => t.WellKeyed ∧ Template.ItemsWellKeyed ts

/-- Every value of the entries is well keyed. -/
def Template.ValuesWellKeyed : List (String × Template) → Prop
  | [] => True
  | (_, t) :: ts => t.WellKeyed ∧ Template.ValuesWellKeyed ts

end

mutual

/-- Every mapping in the spec, and in the bodies of its callables, has distinct keys: the
specs the program is given are such, their mappings being keyed maps. -/
def Spec.WellKeyed : Spec → Prop
  | .list items => Spec.ItemsWellKeyed items
  | .mapping entries => (entries.map Prod.fst).Nodup ∧ Spec.ValuesWellKeyed entries
  | .callable body => body.WellKeyed
  | _ => True

/-- Every item of the list is well keyed. -/
def Spec.ItemsWellKeyed : List Spec → Prop
  | [] => True
  | s :: ss => s.WellKeyed ∧ Spec.ItemsWellKeyed ss

/-- Every value of the entries is well keyed. -/
def Spec.ValuesWellKeyed : List (String × Spec) → Prop
  | [] => True
  | (_, s) :: ss => s.WellKeyed ∧ Spec.ValuesWellKeyed ss

end

/-! ## Entries with the same keys -/

namespace SameKeys

variable {α β γ : Type} {R : α → β → Prop} {es : List (String × α)} {es' : List (String × β)}

theorem of_map (hk : es.map Prod.fst = es'.map Prod.fst)
    (hv : List.Forall₂ R (es.map Prod.snd) (es'.map Prod.snd)) : SameKeys R es es' := by
  induction es generalizing es' with
  | nil =>
    cases es' with
    | nil => exact .nil
    | cons _ _ => cases hk
  | cons e es ih =>
    cases es' with
    | nil => cases hk
    | cons e' es' =>
      simp only [List.map_cons, List.cons.injEq] at hk
      simp only [List.map_cons, List.forall₂_cons] at hv
      exact .cons ⟨hk.1, hv.1⟩ (ih hk.2 hv.2)

theorem map_fst (h : SameKeys R es es') : es.map Prod.fst = es'.map Prod.fst := by
  induction h with
  | nil => rfl
  | cons hab _ ih => simp [hab.1, ih]

theorem filter_key (p : String → Bool) (h : SameKeys R es es') :
    SameKeys R (es.filter (p ·.1)) (es'.filter (p ·.1)) := by
  induction h with
  | nil => exact .nil
  | @cons a b _ _ hab _ ih =>
    have hq : p b.1 = p a.1 := by rw [hab.1]
    by_cases hp : p a.1 = true
    · simp only [List.filter_cons, hp, hq, if_true]
      exact .cons hab ih
    · simp only [List.filter_cons, hp, hq]
      exact ih

theorem length_eq (h : SameKeys R es es') : es.length = es'.length :=
  List.Forall₂.length_eq h

theorem mem {k : String} {v : α} (h : SameKeys R es es') (hv : (k, v) ∈ es) :
    ∃ v', (k, v') ∈ es' ∧ R v v' := by
  induction h with
  | nil => cases hv
  | @cons a b _ _ hab _ ih =>
    rcases List.mem_cons.1 hv with rfl | hv
    · refine ⟨b.2, ?_, hab.2⟩
      have hb : b = (k, b.2) := Prod.ext hab.1.symm rfl
      rw [← hb]
      exact List.mem_cons_self
    · obtain ⟨v', hv', hr⟩ := ih hv
      exact ⟨v', List.mem_cons_of_mem _ hv', hr⟩

end SameKeys

/-! ## Inverting a reordering -/

namespace Spec.Reorder

variable {s s' : Spec}

theorem list_iff {xs : List Spec} : Spec.Reorder (.list xs) s' ↔ ∃ ys, s' = .list ys ∧ List.Forall₂ Spec.Reorder xs ys := by
  constructor
  · intro h
    cases h with
    | list h => exact ⟨_, rfl, h⟩
  · rintro ⟨ys, rfl, h⟩
    exact .list h

theorem mapping_iff {es : List (String × Spec)} :
    Spec.Reorder (.mapping es) s' ↔
      ∃ es' es'', s' = .mapping es'' ∧ SameKeys Spec.Reorder es es' ∧ es'.Perm es'' := by
  constructor
  · intro h
    cases h with
    | mapping hk hv hp => exact ⟨_, _, rfl, SameKeys.of_map hk hv, hp⟩
  · rintro ⟨es', es'', rfl, h, hp⟩
    have hv : List.Forall₂ Spec.Reorder (es.map Prod.snd) (es'.map Prod.snd) := by
      rw [List.forall₂_map_left_iff, List.forall₂_map_right_iff]
      exact h.imp fun _ _ hab => hab.2
    exact .mapping h.map_fst hv hp

theorem callable_iff {b : Template} :
    Spec.Reorder (.callable b) s' ↔ ∃ b', s' = .callable b' ∧ Template.Reorder b b' := by
  constructor
  · intro h
    cases h with
    | callable h => exact ⟨_, rfl, h⟩
  · rintro ⟨b', rfl, h⟩
    exact .callable h

end Spec.Reorder

namespace Template.Reorder

variable {t t' : Template}

theorem list_iff {ts : List Template} :
    Template.Reorder (.list ts) t' ↔ ∃ ts', t' = .list ts' ∧ List.Forall₂ Template.Reorder ts ts' := by
  constructor
  · intro h
    cases h with
    | list h => exact ⟨_, rfl, h⟩
  · rintro ⟨ts', rfl, h⟩
    exact .list h

theorem mapping_iff {es : List (String × Template)} :
    Template.Reorder (.mapping es) t' ↔
      ∃ es' es'', t' = .mapping es'' ∧ SameKeys Template.Reorder es es' ∧ es'.Perm es'' := by
  constructor
  · intro h
    cases h with
    | mapping hk hv hp => exact ⟨_, _, rfl, SameKeys.of_map hk hv, hp⟩
  · rintro ⟨es', es'', rfl, h, hp⟩
    have hv : List.Forall₂ Template.Reorder (es.map Prod.snd) (es'.map Prod.snd) := by
      rw [List.forall₂_map_left_iff, List.forall₂_map_right_iff]
      exact h.imp fun _ _ hab => hab.2
    exact .mapping h.map_fst hv hp

end Template.Reorder

/-! ## Every spec is a reordering of itself -/

mutual

theorem Template.Reorder.refl : (t : Template) → Template.Reorder t t
  | .null => .null
  | .bool b => .bool b
  | .number n => .number n
  | .string s => .string s
  | .node id => .node id
  | .arg i => .arg i
  | .args => .args
  | .callable b => .callable (Template.Reorder.refl b)
  | .list ts => .list (Template.Reorder.reflItems ts)
  | .mapping es => .mapping rfl (Template.Reorder.reflValues es) (List.Perm.refl _)

theorem Template.Reorder.reflItems : (ts : List Template) → List.Forall₂ Template.Reorder ts ts
  | [] => .nil
  | t :: ts => .cons (Template.Reorder.refl t) (Template.Reorder.reflItems ts)

theorem Template.Reorder.reflValues :
    (es : List (String × Template)) → List.Forall₂ Template.Reorder (es.map Prod.snd) (es.map Prod.snd)
  | [] => .nil
  | (_, t) :: es => .cons (Template.Reorder.refl t) (Template.Reorder.reflValues es)

end

mutual

theorem Spec.Reorder.refl : (s : Spec) → Spec.Reorder s s
  | .null => .null
  | .bool b => .bool b
  | .number n => .number n
  | .string s => .string s
  | .node id => .node id
  | .callable b => .callable (Template.Reorder.refl b)
  | .list xs => .list (Spec.Reorder.reflItems xs)
  | .mapping es => .mapping rfl (Spec.Reorder.reflValues es) (List.Perm.refl _)

theorem Spec.Reorder.reflItems : (xs : List Spec) → List.Forall₂ Spec.Reorder xs xs
  | [] => .nil
  | x :: xs => .cons (Spec.Reorder.refl x) (Spec.Reorder.reflItems xs)

theorem Spec.Reorder.reflValues :
    (es : List (String × Spec)) → List.Forall₂ Spec.Reorder (es.map Prod.snd) (es.map Prod.snd)
  | [] => .nil
  | (_, s) :: es => .cons (Spec.Reorder.refl s) (Spec.Reorder.reflValues es)

end

/-! ## Well-keyed specs -/

theorem Template.itemsWellKeyed_iff (ts : List Template) :
    Template.ItemsWellKeyed ts ↔ ∀ t ∈ ts, t.WellKeyed := by
  induction ts with
  | nil => simp [Template.ItemsWellKeyed]
  | cons t ts ih => simp [Template.ItemsWellKeyed, ih]

theorem Template.valuesWellKeyed_iff (es : List (String × Template)) :
    Template.ValuesWellKeyed es ↔ ∀ e ∈ es, e.2.WellKeyed := by
  induction es with
  | nil => simp [Template.ValuesWellKeyed]
  | cons e es ih => simp [Template.ValuesWellKeyed, ih]

theorem Spec.itemsWellKeyed_iff (xs : List Spec) : Spec.ItemsWellKeyed xs ↔ ∀ x ∈ xs, x.WellKeyed := by
  induction xs with
  | nil => simp [Spec.ItemsWellKeyed]
  | cons x xs ih => simp [Spec.ItemsWellKeyed, ih]

theorem Spec.valuesWellKeyed_iff (es : List (String × Spec)) :
    Spec.ValuesWellKeyed es ↔ ∀ e ∈ es, e.2.WellKeyed := by
  induction es with
  | nil => simp [Spec.ValuesWellKeyed]
  | cons e es ih => simp [Spec.ValuesWellKeyed, ih]

/-! ## Sorting entries with distinct keys -/

namespace Name

theorem eq_of_compareKeys {a b : String} (hab : compareKeys a b != .gt)
    (hba : compareKeys b a != .gt) : a = b := by
  -- within a group the keys compare by text, and text comparison is antisymmetric
  have hgroup : (compare a b != .gt) = true → (compare b a != .gt) = true → a = b := by
    intro h₁ h₂
    rw [show compare b a = (compare a b).swap from Std.OrientedCmp.eq_swap] at h₂
    have heq : compare a b = .eq := by
      cases h : compare a b with
      | lt => rw [h] at h₂; exact absurd h₂ (by decide)
      | eq => rfl
      | gt => rw [h] at h₁; exact absurd h₁ (by decide)
    exact Std.LawfulEqCmp.eq_of_compare heq
  unfold compareKeys at hab hba
  cases ha : isDeclaration a <;> cases hb : isDeclaration b <;> simp only [ha, hb] at hab hba
  · exact hgroup hab hba
  · exact absurd hab (by decide)
  · exact absurd hba (by decide)
  · exact hgroup hab hba

/-- Entries with distinct keys sort into one order, whatever order they come in. -/
theorem sortEntries_eq_of_perm {α : Type} {es es' : List (String × α)} (hp : es.Perm es')
    (hk : (es.map Prod.fst).Nodup) : sortEntries es = sortEntries es' := by
  have htrans : ∀ a b c : String × α, (compareKeys a.1 b.1 != .gt) = true →
      (compareKeys b.1 c.1 != .gt) = true → (compareKeys a.1 c.1 != .gt) = true := by
    intro a b c hab hbc
    have hle : ∀ x y : String, (compareKeys x y != .gt) = (compareKeys x y).isLE := by
      intro x y; cases compareKeys x y <;> rfl
    rw [hle] at hab hbc ⊢
    exact compareKeys_isLE_trans hab hbc
  have htotal : ∀ a b : String × α,
      ((compareKeys a.1 b.1 != .gt) || (compareKeys b.1 a.1 != .gt)) = true := by
    intro a b
    have := compareKeys_total a.1 b.1
    cases h₁ : compareKeys a.1 b.1 <;> cases h₂ : compareKeys b.1 a.1 <;> simp_all
  refine List.Perm.eq_of_pairwise (fun a b ha hb hab hba => ?_)
    (List.pairwise_mergeSort htrans htotal es) (List.pairwise_mergeSort htrans htotal es') ?_
  · have ha' : a ∈ es := (List.mergeSort_perm es _).subset ha
    have hb' : b ∈ es := hp.symm.subset ((List.mergeSort_perm es' _).subset hb)
    exact List.inj_on_of_nodup_map hk ha' hb' (eq_of_compareKeys hab hba)
  · exact ((List.mergeSort_perm es _).trans hp).trans (List.mergeSort_perm es' _).symm

/-- Sorting commutes with a change of values that keeps the keys. -/
theorem map_sortEntries {α β : Type} (f : String × α → String × β) (hf : ∀ e, (f e).1 = e.1)
    (es : List (String × α)) : (sortEntries es).map f = sortEntries (es.map f) :=
  List.map_mergeSort fun a _ b _ => by rw [hf a, hf b]

end Name

/-! ## Callables -/

/-- Permuting entries keeps the number of callables in their values. -/
theorem Template.entriesCallables_perm {es es' : List (String × Template)} (hp : es.Perm es') :
    Template.entriesCallables es = Template.entriesCallables es' := by
  induction hp with
  | nil => rfl
  | cons e _ ih =>
    obtain ⟨k, t⟩ := e
    simp only [Template.entriesCallables, ih]
  | swap e e' l =>
    obtain ⟨k, t⟩ := e
    obtain ⟨k', t'⟩ := e'
    simp only [Template.entriesCallables]
    omega
  | trans _ _ ih₁ ih₂ => exact ih₁.trans ih₂

theorem Spec.entriesCallables_perm {es es' : List (String × Spec)} (hp : es.Perm es') :
    Spec.entriesCallables es = Spec.entriesCallables es' := by
  induction hp with
  | nil => rfl
  | cons e _ ih =>
    obtain ⟨k, s⟩ := e
    simp only [Spec.entriesCallables, ih]
  | swap e e' l =>
    obtain ⟨k, s⟩ := e
    obtain ⟨k', s'⟩ := e'
    simp only [Spec.entriesCallables]
    omega
  | trans _ _ ih₁ ih₂ => exact ih₁.trans ih₂

/-- A reordered template holds as many callables. -/
theorem Template.Reorder.callables_eq {t t' : Template} (h : Template.Reorder t t') :
    t.callables = t'.callables := by
  refine Template.callables.induct
    (fun t => ∀ t', Template.Reorder t t' → t.callables = t'.callables)
    (fun es => ∀ es', SameKeys Template.Reorder es es' →
      Template.entriesCallables es = Template.entriesCallables es')
    (fun ts => ∀ ts', List.Forall₂ Template.Reorder ts ts' →
      Template.itemsCallables ts = Template.itemsCallables ts')
    ?list ?mapping ?callable ?other ?nil ?cons ?enil ?econs t t' h
  case list =>
    intro ts ih t' h
    obtain ⟨ts', rfl, hts⟩ := Template.Reorder.list_iff.1 h
    simp only [Template.callables]
    exact ih ts' hts
  case mapping =>
    intro es ih t' h
    obtain ⟨es', es'', rfl, hes, hp⟩ := Template.Reorder.mapping_iff.1 h
    simp only [Template.callables]
    rw [ih es' hes]
    exact Template.entriesCallables_perm hp
  case callable =>
    intro b ih t' h
    cases h with
    | callable h => simp only [Template.callables, ih _ h]
  case other =>
    intro t hl hm hc t' h
    cases h with
    | list => exact (hl _ rfl).elim
    | mapping => exact (hm _ rfl).elim
    | callable => exact (hc _ rfl).elim
    | _ => rfl
  case nil =>
    intro ts' h
    cases h
    rfl
  case cons =>
    intro t ts iht ihts ts' h
    cases h with
    | cons h hs => simp only [Template.itemsCallables, iht _ h, ihts _ hs]
  case enil =>
    intro es' h
    cases h
    rfl
  case econs =>
    intro k t es iht ihes es' h
    cases h with
    | @cons _ b _ _ hab hs =>
      obtain ⟨k', t'⟩ := b
      simp only [Template.entriesCallables, iht _ hab.2, ihes _ hs]

/-- A reordered spec holds as many callables. -/
theorem Spec.Reorder.callables_eq {s s' : Spec} (h : Spec.Reorder s s') :
    s.callables = s'.callables := by
  refine Spec.callables.induct
    (fun s => ∀ s', Spec.Reorder s s' → s.callables = s'.callables)
    (fun es => ∀ es', SameKeys Spec.Reorder es es' → Spec.entriesCallables es = Spec.entriesCallables es')
    (fun xs => ∀ ys, List.Forall₂ Spec.Reorder xs ys → Spec.itemsCallables xs = Spec.itemsCallables ys)
    ?list ?mapping ?callable ?other ?nil ?cons ?enil ?econs s s' h
  case list =>
    intro xs ih s' h
    obtain ⟨ys, rfl, hys⟩ := Spec.Reorder.list_iff.1 h
    simp only [Spec.callables]
    exact ih ys hys
  case mapping =>
    intro es ih s' h
    obtain ⟨es', es'', rfl, hes, hp⟩ := Spec.Reorder.mapping_iff.1 h
    simp only [Spec.callables]
    rw [ih es' hes]
    exact Spec.entriesCallables_perm hp
  case callable =>
    intro b s' h
    cases h with
    | callable h => simp only [Spec.callables, h.callables_eq]
  case other =>
    intro s hl hm hc s' h
    cases h with
    | list => exact (hl _ rfl).elim
    | mapping => exact (hm _ rfl).elim
    | callable => exact (hc _ rfl).elim
    | _ => rfl
  case nil =>
    intro ys h
    cases h
    rfl
  case cons =>
    intro x xs ihx ihxs ys h
    cases h with
    | cons h hs => simp only [Spec.itemsCallables, ihx _ h, ihxs _ hs]
  case enil =>
    intro es' h
    cases h
    rfl
  case econs =>
    intro k x es ihx ihes es' h
    cases h with
    | @cons _ b _ _ hab hs =>
      obtain ⟨k', y⟩ := b
      simp only [Spec.entriesCallables, ihx _ hab.2, ihes _ hs]

theorem Spec.Reorder.itemsCallables_eq {xs ys : List Spec} (h : List.Forall₂ Spec.Reorder xs ys) :
    Spec.itemsCallables xs = Spec.itemsCallables ys := by
  induction h with
  | nil => rfl
  | cons hxy _ ih => simp only [Spec.itemsCallables, hxy.callables_eq, ih]

/-- Flattening and building a reordered spec with reordered arguments may nest calls as deep. -/
theorem Spec.callDepth_reorder {s s' : Spec} {args args' : List Spec} (h : Spec.Reorder s s')
    (ha : List.Forall₂ Spec.Reorder args args') : s.callDepth args = s'.callDepth args' := by
  simp only [Spec.callDepth, h.callables_eq, Spec.Reorder.itemsCallables_eq ha]

/-! ## Calls -/

theorem Template.instantiateEntries_eq_map (args : List Spec) (es : List (String × Template)) :
    Template.instantiateEntries args es = es.map fun e => (e.1, e.2.instantiate args) := by
  induction es with
  | nil => rfl
  | cons e es ih =>
    obtain ⟨k, t⟩ := e
    simp [Template.instantiateEntries, ih]

theorem Spec.Reorder.getD {xs ys : List Spec} (h : List.Forall₂ Spec.Reorder xs ys) (i : Nat) :
    Spec.Reorder (xs.getD i .null) (ys.getD i .null) := by
  induction h generalizing i with
  | nil => exact .null
  | cons hxy _ ih =>
    cases i with
    | zero => exact hxy
    | succ i => exact ih i

/-- A reordered template called with reordered arguments returns a reordered spec. -/
theorem Template.instantiate_reorder {args args' : List Spec} (ha : List.Forall₂ Spec.Reorder args args')
    {t t' : Template} (h : Template.Reorder t t') :
    Spec.Reorder (t.instantiate args) (t'.instantiate args') := by
  refine Template.instantiate.induct
    (fun t => ∀ t', Template.Reorder t t' → Spec.Reorder (t.instantiate args) (t'.instantiate args'))
    (fun es => ∀ es', SameKeys Template.Reorder es es' →
      SameKeys Spec.Reorder (Template.instantiateEntries args es) (Template.instantiateEntries args' es'))
    (fun ts => ∀ ts', List.Forall₂ Template.Reorder ts ts' →
      List.Forall₂ Spec.Reorder (Template.instantiateItems args ts) (Template.instantiateItems args' ts'))
    ?null ?bool ?number ?string ?list ?mapping ?node ?callable ?arg ?args ?nil ?cons ?enil ?econs t t' h
  case list =>
    intro ts ih t' h
    obtain ⟨ts', rfl, hts⟩ := Template.Reorder.list_iff.1 h
    exact .list (ih ts' hts)
  case mapping =>
    intro es ih t' h
    obtain ⟨es', es'', rfl, hes, hp⟩ := Template.Reorder.mapping_iff.1 h
    refine Spec.Reorder.mapping_iff.2 ⟨_, _, rfl, ih es' hes, ?_⟩
    rw [Template.instantiateEntries_eq_map, Template.instantiateEntries_eq_map]
    exact hp.map _
  case callable =>
    intro b t' h
    cases h with
    | callable h => exact .callable h
  case arg =>
    intro i t' h
    cases h
    exact Spec.Reorder.getD ha i
  case args =>
    intro t' h
    cases h
    exact .list ha
  case nil =>
    intro ts' h
    cases h
    exact .nil
  case cons =>
    intro t ts iht ihts ts' h
    cases h with
    | cons h hs => exact .cons (iht _ h) (ihts _ hs)
  case enil =>
    intro es' h
    cases h
    exact .nil
  case econs =>
    intro k t es iht ihes es' h
    cases h with
    | @cons _ b _ _ hab hs =>
      obtain ⟨k', t'⟩ := b
      exact .cons ⟨hab.1, iht _ hab.2⟩ (ihes _ hs)
  case null =>
    intro t' h
    cases h
    exact .null
  all_goals
    intro _ t' h
    cases h
    constructor

/-- A template called with well-keyed arguments returns a well-keyed spec. -/
theorem Template.WellKeyed.instantiate {args : List Spec} (ha : ∀ a ∈ args, a.WellKeyed)
    {t : Template} (ht : t.WellKeyed) : (t.instantiate args).WellKeyed := by
  refine Template.instantiate.induct
    (fun t => t.WellKeyed → (t.instantiate args).WellKeyed)
    (fun es => Template.ValuesWellKeyed es → Spec.ValuesWellKeyed (Template.instantiateEntries args es))
    (fun ts => Template.ItemsWellKeyed ts → Spec.ItemsWellKeyed (Template.instantiateItems args ts))
    ?null ?bool ?number ?string ?list ?mapping ?node ?callable ?arg ?args ?nil ?cons ?enil ?econs t ht
  case list =>
    intro ts ih ht
    exact ih ht
  case mapping =>
    intro es ih ht
    refine ⟨?_, ih ht.2⟩
    rw [Template.instantiateEntries_eq_map, List.map_map]
    exact ht.1
  case callable =>
    intro b ht
    exact ht
  case arg =>
    intro i _
    simp only [Template.instantiate]
    rw [List.getD_eq_getElem?_getD]
    cases hi : args[i]? with
    | none => trivial
    | some a => exact ha a (List.mem_of_getElem? hi)
  case args =>
    intro _
    exact (Spec.itemsWellKeyed_iff args).2 ha
  case cons =>
    intro t ts iht ihts h
    exact ⟨iht h.1, ihts h.2⟩
  case econs =>
    intro k t es iht ihes h
    exact ⟨iht h.1, ihes h.2⟩
  all_goals
    intros
    trivial

/-! ## Flattening -/

namespace Spec

/-- Entry lists related by reordering: values reordered where they stand, then the entries
permuted. -/
def ReorderEntries (es es' : List (String × Spec)) : Prop :=
  ∃ es₁, SameKeys Spec.Reorder es es₁ ∧ es₁.Perm es'

theorem reorder_mapping_iff {es : List (String × Spec)} {s' : Spec} :
    Spec.Reorder (.mapping es) s' ↔ ∃ es', s' = .mapping es' ∧ ReorderEntries es es' := by
  rw [Spec.Reorder.mapping_iff]
  constructor
  · rintro ⟨es₁, es', rfl, h, hp⟩
    exact ⟨es', rfl, es₁, h, hp⟩
  · rintro ⟨es', rfl, es₁, h, hp⟩
    exact ⟨es₁, es', rfl, h, hp⟩

theorem flattenItemsFuel_eq_map (fuel : Nat) (args xs : List Spec) :
    flattenItemsFuel fuel args xs = xs.map fun x => (flattenFuel fuel args defaultSeparator x).getD "" := by
  induction xs with
  | nil => simp [flattenItemsFuel]
  | cons x xs ih => simp [flattenItemsFuel, ih]

theorem flattenEntriesFuel_eq_map (fuel : Nat) (args : List Spec) (es : List (String × Spec)) :
    flattenEntriesFuel fuel args es =
      es.map fun e => (e.1, (flattenFuel fuel args defaultSeparator e.2).getD "") := by
  induction es with
  | nil => simp [flattenEntriesFuel]
  | cons e es ih =>
    obtain ⟨k, v⟩ := e
    simp [flattenEntriesFuel, ih]

section
variable {args args' : List Spec} (ha : List.Forall₂ Spec.Reorder args args')
  (hwa : ∀ a ∈ args, a.WellKeyed)
include ha hwa

/-- With reordered arguments, a well-keyed value and its reordering flatten alike, at every
number of nested calls. -/
theorem flattenFuel_reorder (fuel : Nat) (sep : String) {s s' : Spec} (h : Spec.Reorder s s')
    (hs : s.WellKeyed) : flattenFuel fuel args sep s = flattenFuel fuel args' sep s' := by
  refine flattenFuel.induct args
    (fun fuel sep s => ∀ s', Spec.Reorder s s' → s.WellKeyed →
      flattenFuel fuel args sep s = flattenFuel fuel args' sep s')
    (fun fuel es => ∀ es', SameKeys Spec.Reorder es es' → Spec.ValuesWellKeyed es →
      flattenEntriesFuel fuel args es = flattenEntriesFuel fuel args' es')
    (fun fuel xs => ∀ ys, List.Forall₂ Spec.Reorder xs ys → Spec.ItemsWellKeyed xs →
      flattenItemsFuel fuel args xs = flattenItemsFuel fuel args' ys)
    ?null ?node ?bool ?number ?string ?stop ?call ?list ?mapping ?enil ?econs ?inil ?icons
    fuel sep s s' h hs
  case stop =>
    intro sep b s' h _
    obtain ⟨b', rfl, -⟩ := Spec.Reorder.callable_iff.1 h
    simp only [flattenFuel]
  case call =>
    intro sep b fuel ih s' h hs
    obtain ⟨b', rfl, hb⟩ := Spec.Reorder.callable_iff.1 h
    simp only [flattenFuel]
    exact ih _ (Template.instantiate_reorder ha hb) (Template.WellKeyed.instantiate hwa hs)
  case list =>
    intro fuel sep xs ih s' h hs
    obtain ⟨ys, rfl, hys⟩ := Spec.Reorder.list_iff.1 h
    simp only [flattenFuel]
    rw [ih ys hys hs]
  case mapping =>
    intro fuel sep es ih s' h hs
    obtain ⟨es₁, es', rfl, hes, hp⟩ := Spec.Reorder.mapping_iff.1 h
    -- the texts of the entries agree where they stand, and sorting forgets their order
    have hperm : (flattenEntriesFuel fuel args' es₁).Perm (flattenEntriesFuel fuel args' es') := by
      rw [flattenEntriesFuel_eq_map, flattenEntriesFuel_eq_map]
      exact hp.map _
    have hkeys : ((flattenEntriesFuel fuel args' es₁).map Prod.fst).Nodup := by
      have hfst : (flattenEntriesFuel fuel args' es₁).map Prod.fst = es₁.map Prod.fst := by
        rw [flattenEntriesFuel_eq_map, List.map_map]
        rfl
      rw [hfst, ← hes.map_fst]
      exact hs.1
    simp only [flattenFuel]
    rw [ih es₁ hes hs.2, Name.sortEntries_eq_of_perm hperm hkeys]
  case enil =>
    intro fuel es' h _
    cases h
    simp only [flattenEntriesFuel]
  case econs =>
    intro fuel k x es ihx ihes es' h hs
    cases h with
    | @cons _ b _ _ hab hrest =>
      obtain ⟨k', y⟩ := b
      obtain ⟨rfl, hxy⟩ := hab
      simp only [flattenEntriesFuel]
      rw [ihx y hxy hs.1, ihes _ hrest hs.2]
  case inil =>
    intro fuel ys h _
    cases h
    simp only [flattenItemsFuel]
  case icons =>
    intro fuel x xs ihx ihxs ys h hs
    cases h with
    | cons hxy hrest =>
      simp only [flattenItemsFuel]
      rw [ihx _ hxy hs.1, ihxs _ hrest hs.2]
  all_goals
    intros
    rename_i h _
    cases h
    simp only [flattenFuel]

/-- With reordered arguments, a well-keyed value and its reordering flatten to the same text,
whatever the pair separator. -/
theorem flattenWith_reorder (sep : String) {s s' : Spec} (h : Spec.Reorder s s') (hs : s.WellKeyed) :
    flattenWith s args sep = flattenWith s' args' sep := by
  simp only [flattenWith, callDepth_reorder h ha]
  exact flattenFuel_reorder ha hwa _ sep h hs

theorem flatten_reorder {s s' : Spec} (h : Spec.Reorder s s') (hs : s.WellKeyed) :
    flatten s args = flatten s' args' :=
  flattenWith_reorder ha hwa defaultSeparator h hs

theorem flattenItems_reorder {xs ys : List Spec} (h : List.Forall₂ Spec.Reorder xs ys)
    (hs : ∀ x ∈ xs, x.WellKeyed) : flattenItems xs args = flattenItems ys args' := by
  unfold flattenItems
  congr 1
  induction h with
  | nil => rfl
  | cons hxy _ ih =>
    simp only [List.map_cons, List.mem_cons, forall_eq_or_imp] at hs ⊢
    rw [flatten_reorder ha hwa hxy hs.1, ih hs.2]

/-- Entries whose values are reordered where they stand give the same keys with the same
texts. -/
theorem entryTexts_reorder {γ : Type} (F : Option String → γ) {es es₁ : List (String × Spec)}
    (hes : SameKeys Spec.Reorder es es₁) (hw : ∀ e ∈ es, e.2.WellKeyed) :
    (es.map fun e => (e.1, F (flatten e.2 args))) = es₁.map fun e => (e.1, F (flatten e.2 args')) := by
  induction hes with
  | nil => rfl
  | @cons a b _ _ hab _ ih =>
    simp only [List.map_cons, List.mem_cons, forall_eq_or_imp] at hw ⊢
    rw [hab.1, flatten_reorder ha hwa hab.2 hw.1, ih hw.2]

/-- Entries flatten in the attribute key order, so their order does not show. -/
theorem flattenEntries_reorder (sep : String) {es es' : List (String × Spec)}
    (h : ReorderEntries es es') (hs : (Spec.mapping es).WellKeyed) :
    flattenEntries es args sep = flattenEntries es' args' sep := by
  obtain ⟨es₁, hes, hp⟩ := h
  have hmap := entryTexts_reorder ha hwa (·.getD "") hes ((valuesWellKeyed_iff es).1 hs.2)
  have hkeys : ((es₁.map fun e => (e.1, (flatten e.2 args').getD "")).map Prod.fst).Nodup := by
    rw [← hmap, List.map_map]
    exact hs.1
  unfold flattenEntries
  rw [hmap, Name.sortEntries_eq_of_perm (hp.map _) hkeys]

end

end Spec

end Markup
