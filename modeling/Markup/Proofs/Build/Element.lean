import Markup.Proofs.Build.Steps
import Markup.Proofs.Xml.Tags

/-!
# Making an element under the strict policy

An element is made from its tag name, the scope it is built in and its attribute entries.
The entries that declare namespaces extend the scope, the last one of a prefix winning, and
the element and its attributes take their namespaces from the extended scope. The attributes
are then set in key order, declarations first; setting an attribute in a namespace takes over
the record of that namespace and local name if there is one.

When no entry declares `xml` or `xmlns`, and every declared URI has no blanks around it,
the element comes out `Coherent`: the record of each declaration holds the value of the last
entry for its key, sorting keeps entries of one key in order, so that value is the one the
scope binds, and trimming does not change it.
-/

namespace Markup

/-! ## Scopes -/

namespace Scope

theorem find?_insertSorted (p u q : String) (bs : List (String × String)) :
    (insertSorted p u bs).find? (·.1 == q) =
      if p = q then some (p, u) else bs.find? (·.1 == q) := by
  induction bs with
  | nil => by_cases h : p = q <;> simp [insertSorted, h]
  | cons b rest ih =>
    obtain ⟨r, v⟩ := b
    simp only [insertSorted]
    by_cases hpr : p = r
    · subst hpr
      by_cases h : p = q <;> simp [h]
    · simp only [beq_iff_eq, hpr, if_false]
      split
      · by_cases h : p = q <;> simp [h]
      · by_cases h : r = q
        · subst h
          simp [hpr]
        · simp [h, ih]

theorem get?_bind (s : Scope) (p u q : String) :
    (s.bind p u).get? q = if q = p then some u else s.get? q := by
  simp only [get?, bind, find?_insertSorted]
  by_cases h : p = q
  · simp [h]
  · simp [h, Ne.symm h]

/-- The flattened value of the last entry with key `k` whose value flattens. -/
def lastValue (entries : List (String × Spec)) (args : List Spec) (k : String) : Option String :=
  ((entries.filter (·.1 == k)).filterMap fun e => Spec.flatten e.2 args).getLast?

theorem lastValue_cons (e : String × Spec) (entries : List (String × Spec)) (args : List Spec)
    (k : String) : lastValue (e :: entries) args k =
      (lastValue entries args k).or (if e.1 = k then Spec.flatten e.2 args else none) := by
  unfold lastValue
  by_cases he : e.1 = k
  · rw [List.filter_cons_of_pos (by simpa using he), if_pos he, List.filterMap_cons]
    cases Spec.flatten e.2 args <;> simp [List.getLast?_cons]
  · rw [List.filter_cons_of_neg (by simpa using he), if_neg he, Option.or_none]

theorem lastValue_append_singleton (entries : List (String × Spec)) (e : String × Spec)
    (args : List Spec) (k : String) : lastValue (entries ++ [e]) args k =
      if e.1 = k then (Spec.flatten e.2 args).or (lastValue entries args k)
      else lastValue entries args k := by
  unfold lastValue
  rw [List.filter_append, List.filterMap_append, List.getLast?_append]
  by_cases he : e.1 = k
  · simp [he]
  · simp [he]

/-- The binding one attribute entry adds to a scope. -/
def declareEntry (args : List Spec) (s : Scope) (a : String × Spec) : Scope :=
  match Name.declares? a.1, Spec.flatten a.2 args with
  | some p, some uri => s.bind p (Text.trim uri)
  | _, _ => s

theorem declare_fst (s : Scope) (attrs : List (String × Spec)) (args : List Spec) :
    (s.declare attrs args).1 = attrs.foldl (declareEntry args) s := by
  unfold declare
  suffices h : ∀ (b : Bool) (s : Scope), (attrs.foldl (fun acc a =>
      match Name.declares? a.1, Spec.flatten a.2 args with
      | some p, some uri => (acc.1.bind p (Text.trim uri), false)
      | _, _ => acc) (s, b)).1 = attrs.foldl (declareEntry args) s from h true s
  induction attrs with
  | nil => intro b s; rfl
  | cons a rest ih =>
    intro b s
    simp only [List.foldl_cons, declareEntry]
    split
    · exact ih false _
    · exact ih b s

/-- After the declarations, a prefix is bound to the trimmed value of the last entry that
declares it, or as before when none does. -/
theorem get?_declare (s : Scope) (attrs : List (String × Spec)) (args : List Spec) {p : String}
    (hp : p = "" ∨ Name.isNCName p = true) :
    (s.declare attrs args).1.get? p =
      match lastValue attrs args (Xml.declarationName p) with
      | some v => some (Text.trim v)
      | none => s.get? p := by
  rw [declare_fst]
  induction attrs generalizing s with
  | nil => rfl
  | cons a rest ih =>
    rw [List.foldl_cons, ih, lastValue_cons]
    cases lastValue rest args (Xml.declarationName p) with
    | some v => rfl
    | none =>
      -- the entry binds `p` exactly when its key is the declaration of `p`
      have hkey : a.1 = Xml.declarationName p ↔ Name.declares? a.1 = some p :=
        ⟨fun h => h ▸ Xml.declares?_declarationName hp, Xml.eq_declarationName_of_declares?⟩
      simp only [declareEntry, Option.none_or]
      split
      · next q uri hq hf =>
        rw [get?_bind]
        by_cases hqp : q = p
        · subst hqp
          simp [hkey.2 hq, hf]
        · have : a.1 ≠ Xml.declarationName p := fun h => hqp (Option.some.inj ((hq.symm.trans (hkey.1 h))))
          simp [Ne.symm hqp, this]
      · next hnot =>
        by_cases ha : a.1 = Xml.declarationName p
        · have hd := hkey.1 ha
          cases hf : Spec.flatten a.2 args with
          | none => simp [ha]
          | some uri => exact (hnot p uri hd hf).elim
        · simp [ha]

theorem mem_of_lastValue {entries : List (String × Spec)} {args : List Spec} {k v : String}
    (h : lastValue entries args k = some v) :
    ∃ e ∈ entries, e.1 = k ∧ Spec.flatten e.2 args = some v := by
  obtain ⟨e, he, hf⟩ := List.mem_filterMap.1 (List.mem_of_getLast? h)
  obtain ⟨he, hk⟩ := List.mem_filter.1 he
  exact ⟨e, he, by simpa using hk, hf⟩

/-- The scope binds neither `xml` nor `xmlns`. -/
def NoReservedBinding (s : Scope) : Prop :=
  s.get? "xml" = none ∧ s.get? "xmlns" = none

theorem namespaceOf?_ne_empty {s : Scope} {p u : String} (h : s.namespaceOf? p = some u) :
    u ≠ "" := by
  simp only [namespaceOf?, Option.filter_eq_some_iff] at h
  obtain ⟨-, h⟩ := h
  simpa using h

theorem namespaceOf?_getD {s : Scope} {p v : String} (h : s.get? p = some v) :
    (s.namespaceOf? p).getD "" = v := by
  simp only [namespaceOf?, resolve?, h]
  cases hv : v.isEmpty
  · simp [Option.filter, hv]
  · simp [Option.filter, String.isEmpty_iff.1 hv]

theorem NoReservedBinding.namespaceOf?_xml {s : Scope} (hs : s.NoReservedBinding) :
    s.namespaceOf? "xml" = some xmlNamespace := by
  simp only [namespaceOf?, resolve?, hs.1]
  decide

theorem NoReservedBinding.namespaceOf?_xmlns {s : Scope} (hs : s.NoReservedBinding) :
    s.namespaceOf? "xmlns" = none := by
  simp only [namespaceOf?, resolve?, hs.2]
  decide

end Scope

/-- The namespace declarations among the entries bind neither `xml` nor `xmlns`, and their
values flatten to URIs with no blanks around them. -/
def DeclaresTrimmed (entries : List (String × Spec)) (args : List Spec) : Prop :=
  ∀ e ∈ entries, ∀ p, Name.declares? e.1 = some p →
    p ≠ "xml" ∧ p ≠ "xmlns" ∧ ∀ v, Spec.flatten e.2 args = some v → Text.trim v = v

namespace DeclaresTrimmed

variable {attrs : List (String × Spec)} {args : List Spec}

/-- The scope of the declarations binds a prefix to the value of the last entry declaring it. -/
theorem get?_declare (ha : DeclaresTrimmed attrs args) (s : Scope) {p v : String}
    (hp : p = "" ∨ Name.isNCName p = true)
    (hl : Scope.lastValue attrs args (Xml.declarationName p) = some v) :
    (s.declare attrs args).1.get? p = some v := by
  rw [Scope.get?_declare s attrs args hp, hl]
  obtain ⟨e, he, hk, hf⟩ := Scope.mem_of_lastValue hl
  have hd : Name.declares? e.1 = some p := hk ▸ Xml.declares?_declarationName hp
  exact congrArg some ((ha e he p hd).2.2 v hf)

theorem noReservedBinding (ha : DeclaresTrimmed attrs args) {s : Scope}
    (hs : s.NoReservedBinding) : (s.declare attrs args).1.NoReservedBinding := by
  have hnone : ∀ p, (p = "xml" ∨ p = "xmlns") →
      Scope.lastValue attrs args (Xml.declarationName p) = none := by
    intro p hp
    cases hl : Scope.lastValue attrs args (Xml.declarationName p) with
    | none => rfl
    | some v =>
      obtain ⟨e, he, hk, -⟩ := Scope.mem_of_lastValue hl
      have hd : Name.declares? e.1 = some p := hk ▸ Xml.declares?_declarationName
        (.inr (by rcases hp with rfl | rfl <;> decide))
      rcases hp with rfl | rfl
      · exact absurd rfl (ha e he _ hd).1
      · exact absurd rfl (ha e he _ hd).2.1
  constructor
  · rw [Scope.get?_declare s attrs args (.inr (by decide)), hnone _ (.inl rfl)]
    exact hs.1
  · rw [Scope.get?_declare s attrs args (.inr (by decide)), hnone _ (.inr rfl)]
    exact hs.2

end DeclaresTrimmed

/-! ## Sorting keeps entries of one key in order -/

namespace Name

theorem compareKeys_isLE_trans {a b c : String} :
    (compareKeys a b).isLE → (compareKeys b c).isLE → (compareKeys a c).isLE := by
  unfold compareKeys
  cases isDeclaration a <;> cases isDeclaration b <;> cases isDeclaration c <;>
    simp only [Ordering.isLE_gt, Ordering.isLE_lt, Bool.false_eq_true, false_imp_iff, imp_true_iff]
  all_goals exact Std.TransOrd.isLE_trans

theorem compareKeys_total (a b : String) : (compareKeys a b).isLE || (compareKeys b a).isLE := by
  unfold compareKeys
  cases isDeclaration a <;> cases isDeclaration b <;> simp only [Ordering.isLE_gt, Ordering.isLE_lt, Bool.or_true, Bool.true_or]
  all_goals
    rw [show compare b a = (compare a b).swap from Std.OrientedCmp.eq_swap]
    cases compare a b <;> rfl

theorem compareKeys_self (k : String) : compareKeys k k = .eq := by
  unfold compareKeys
  have hself : compare k k = .eq := Std.ReflCmp.compare_self
  cases isDeclaration k <;> exact hself

/-- Sorting keeps the order of entries with the same key. -/
theorem filter_sortEntries {α : Type} (entries : List (String × α)) (k : String) :
    (sortEntries entries).filter (·.1 == k) = entries.filter (·.1 == k) := by
  have hle : ∀ x y : String × α, (compareKeys x.1 y.1 != .gt) = (compareKeys x.1 y.1).isLE := by
    intro x y; cases compareKeys x.1 y.1 <;> rfl
  have hsub : (entries.filter (·.1 == k)).Sublist (sortEntries entries) := by
    refine List.sublist_mergeSort (fun x y z hxy hyz => ?_) (fun x y => ?_) ?_ (List.filter_sublist)
    · rw [hle] at hxy hyz ⊢; exact compareKeys_isLE_trans hxy hyz
    · rw [hle, hle]; exact compareKeys_total _ _
    · refine List.pairwise_of_forall_mem_list fun x hx y hy => ?_
      simp only [List.mem_filter, beq_iff_eq] at hx hy
      simp [hx.2, hy.2, compareKeys_self]
  have hperm := (List.mergeSort_perm entries fun a b => compareKeys a.1 b.1 != .gt).filter (·.1 == k)
  have := (hsub.filter (·.1 == k))
  rw [List.filter_filter, List.filter_congr (fun x _ => Bool.and_self _)] at this
  exact (this.eq_of_length hperm.length_eq.symm).symm

end Name

/-! ## Tag names -/

theorem TagName.resolve_eq_ok {tag : TagName} {qn pfx : String} (h : tag.resolve = .ok (qn, pfx)) :
    ∃ q, QName.parse? qn = some q ∧ q.prefixName.getD "" = pfx := by
  cases tag with
  | qualified name =>
    simp only [TagName.resolve] at h
    split at h
    · next q hq =>
      cases h
      exact ⟨q, hq, rfl⟩
    · cases h
  | pair p l =>
    simp only [TagName.resolve, Bool.or_eq_true, Bool.not_eq_true'] at h
    split at h
    · cases h
    · next hok =>
      simp only [Bool.or_eq_true, Bool.not_eq_false, not_or] at hok
      cases h
      by_cases he : (p.getD "").isEmpty
      · refine ⟨⟨none, l⟩, QName.parse?_eq_some_iff.2 ⟨by simp [hok.1], by simp [he, QName.toString]⟩,
          ?_⟩
        simpa using (String.isEmpty_iff.1 he).symm
      · have hp : Name.isNCName (p.getD "") = true := by
          rcases hok with ⟨-, h | h⟩
          · simp [h] at he
          · exact h
        refine ⟨⟨some (p.getD ""), l⟩, QName.parse?_eq_some_iff.2 ⟨by simp [hok.1, hp], ?_⟩, rfl⟩
        simp [he, QName.toString]

/-! ## Attribute records -/

/-- The namespace a strict build gives an attribute named `q` where the scope `σ` is in force:
a declaration is in the namespace of declarations, a prefixed name in its prefix's namespace,
and an unprefixed one in none. -/
def attrNamespace (σ : Scope) (q : QName) : Option String :=
  if q.isDeclaration then some xmlnsNamespace
  else
    match q.prefixName with
    | some p => σ.namespaceOf? p
    | none => none

/-- An attribute record as a strict build makes it where `σ` is in force: its name reads back
as its parts, and it is in the namespace its name gets there, which a prefixed name has. -/
structure MadeAttr (σ : Scope) (a : Attr) : Prop where
  parse : QName.parse? a.name = some ⟨a.prefixName, a.localName⟩
  ns_eq : a.ns = attrNamespace σ ⟨a.prefixName, a.localName⟩
  prefixed : a.prefixName.isSome → a.ns.isSome

/-- The attribute records of an element after the entries `P` are set: distinct names, each
made as above, one record per namespace and local name, and each declaration holding the
value of the last entry for its key. -/
structure AttrsInv (σ : Scope) (args : List Spec) (P : List (String × Spec)) (A : List Attr) :
    Prop where
  names_nodup : (A.map Attr.name).Nodup
  made : ∀ a ∈ A, MadeAttr σ a
  ns_unique : ∀ a ∈ A, ∀ b ∈ A, a.ns.isSome → a.ns = b.ns → a.localName = b.localName → a = b
  declared_last : ∀ a ∈ A, (Xml.declaredBy a).isSome →
    Scope.lastValue P args a.name = some a.value

theorem Attr.name_eq_toString (a : Attr) : a.name = (QName.mk a.prefixName a.localName).toString := by
  unfold Attr.name QName.toString
  cases a.prefixName <;> rfl

theorem updateFirst_eq_map {α : Type} {p : α → Bool} {f : α → α} {A : List α} (hnd : A.Nodup)
    (huniq : ∀ a ∈ A, ∀ b ∈ A, p a → p b → a = b) :
    Tree.updateFirst p f A = A.map fun a => if p a then f a else a := by
  induction A with
  | nil => rfl
  | cons a A ih =>
    rw [List.nodup_cons] at hnd
    simp only [Tree.updateFirst, List.map_cons]
    by_cases ha : p a
    · -- no later item is also chosen, so the rest is left as it is
      have hrest : ∀ b ∈ A, p b = false := fun b hb => by
        by_contra hpb
        exact hnd.1 (huniq a (List.mem_cons_self ..) b (List.mem_cons_of_mem _ hb) ha
          (by simpa using hpb) ▸ hb)
      simp only [ha, if_true, List.cons.injEq, true_and]
      exact (List.map_congr_left fun b hb => by simp [hrest b hb]).trans (List.map_id' A) |>.symm
    · simp only [ha, Bool.false_eq_true, if_false, List.cons.injEq, true_and]
      exact ih hnd.2 fun x hx y hy => huniq x (List.mem_cons_of_mem _ hx) y (List.mem_cons_of_mem _ hy)

namespace MadeAttr

variable {σ : Scope} {a : Attr}

/-- A made record with the name `k` is the record `k` would make. -/
theorem eq_of_name (ha : MadeAttr σ a) {k : String} {q : QName} (hk : a.name = k)
    (hq : QName.parse? k = some q) :
    a.prefixName = q.prefixName ∧ a.localName = q.localName ∧ a.ns = attrNamespace σ q := by
  have := ha.parse
  rw [hk, hq, Option.some.injEq] at this
  subst this
  exact ⟨rfl, rfl, ha.ns_eq⟩

end MadeAttr

namespace AttrsInv

variable {σ : Scope} {args : List Spec} {P : List (String × Spec)} {A : List Attr}

theorem lastValue_of_ne (hinv : AttrsInv σ args P A) {a : Attr} (ha : a ∈ A)
    (hd : (Xml.declaredBy a).isSome) {e : String × Spec} (he : e.1 ≠ a.name) :
    Scope.lastValue (P ++ [e]) args a.name = some a.value := by
  rw [Scope.lastValue_append_singleton, if_neg he]
  exact hinv.declared_last a ha hd

/-- Setting the entry `(k, v)` by changing the selected record with `f`, or adding `new` when
none is selected. The invariant is kept when exactly the record named `k` is selected, the
change keeps its namespace and local part and names it `k`, and every changed or added record
is made and, if a declaration, holds the entry's value. -/
theorem upsert (hinv : AttrsInv σ args P A) {k : String} {v : Spec} {p : Attr → Bool}
    {f : Attr → Attr} {new : Attr}
    (hsel : ∀ a ∈ A, a.name = k → p a = true)
    (huniq : ∀ a ∈ A, ∀ b ∈ A, p a = true → p b = true → a = b)
    (hf : ∀ a, p a = true → (f a).name = k ∧ (f a).ns = a.ns ∧ (f a).localName = a.localName)
    (hfmade : ∀ a ∈ A, p a = true → MadeAttr σ (f a))
    (hfdecl : ∀ a ∈ A, p a = true → (Xml.declaredBy (f a)).isSome →
      Scope.lastValue (P ++ [(k, v)]) args k = some (f a).value)
    (hnew : new.name = k) (hnewmade : MadeAttr σ new)
    (hnewdecl : (Xml.declaredBy new).isSome → Scope.lastValue (P ++ [(k, v)]) args k = some new.value)
    (hnewsel : ∀ a ∈ A, a.ns.isSome → a.ns = new.ns → a.localName = new.localName → p a = true) :
    AttrsInv σ args (P ++ [(k, v)]) (if A.any p then Tree.updateFirst p f A else A ++ [new]) := by
  split
  · have hnd : A.Nodup := List.Nodup.of_map _ hinv.names_nodup
    rw [updateFirst_eq_map hnd huniq]
    -- the change keeps what `ns_unique` looks at
    have hg : ∀ a, (if p a then f a else a).ns = a.ns ∧
        (if p a then f a else a).localName = a.localName := fun a => by
      by_cases hpa : p a = true
      · simp only [hpa, if_true]
        exact (hf a hpa).2
      · simp only [hpa, Bool.false_eq_true, if_false, and_self]
    refine ⟨?_, ?_, ?_, ?_⟩
    · rw [List.map_map]
      refine hnd.map_on fun a ha b hb hab => ?_
      simp only [Function.comp_apply] at hab
      by_cases hpa : p a = true <;> by_cases hpb : p b = true <;>
        simp only [hpa, hpb, if_true, Bool.false_eq_true, if_false] at hab
      · exact huniq a ha b hb hpa hpb
      · exact absurd (hsel b hb (hab.symm.trans (hf a hpa).1)) hpb
      · exact absurd (hsel a ha (hab.trans (hf b hpb).1)) hpa
      · exact List.inj_on_of_nodup_map hinv.names_nodup ha hb hab
    · simp only [List.mem_map]
      rintro _ ⟨a, ha, rfl⟩
      by_cases hpa : p a = true
      · simp only [hpa, if_true]
        exact hfmade a ha hpa
      · simpa [hpa] using hinv.made a ha
    · simp only [List.mem_map]
      rintro _ ⟨a, ha, rfl⟩ _ ⟨b, hb, rfl⟩ hns hnsab hl
      rw [(hg a).1] at hns hnsab
      rw [(hg b).1] at hnsab
      rw [(hg a).2, (hg b).2] at hl
      rw [hinv.ns_unique a ha b hb hns hnsab hl]
    · simp only [List.mem_map]
      rintro _ ⟨a, ha, rfl⟩ hd
      by_cases hpa : p a = true
      · simp only [hpa, if_true] at hd ⊢
        rw [(hf a hpa).1]
        exact hfdecl a ha hpa hd
      · simp only [hpa, Bool.false_eq_true, if_false] at hd ⊢
        exact hinv.lastValue_of_ne ha hd fun hka => hpa (hsel a ha hka.symm)
  · next hany =>
    simp only [List.any_eq_true, not_exists, not_and] at hany
    refine ⟨?_, ?_, ?_, ?_⟩
    · rw [List.map_append, List.nodup_append]
      refine ⟨hinv.names_nodup, List.nodup_singleton _, ?_⟩
      simp only [List.mem_map, List.mem_singleton]
      rintro _ ⟨a, ha, rfl⟩ _ ⟨_, rfl, rfl⟩ hak
      exact hany a ha (hsel a ha (hak.trans hnew))
    · intro a ha
      rcases List.mem_append.1 ha with ha | ha
      · exact hinv.made a ha
      · rw [List.mem_singleton] at ha
        subst ha
        exact hnewmade
    · -- the added record shares its namespace and local part with no other
      intro a ha b hb hns hnsab hl
      rcases List.mem_append.1 ha with haA | hanew <;> rcases List.mem_append.1 hb with hbA | hbnew
      · exact hinv.ns_unique a haA b hbA hns hnsab hl
      · rw [List.mem_singleton] at hbnew
        rw [hbnew] at hnsab hl
        exact absurd (hnewsel a haA hns hnsab hl) (hany a haA)
      · rw [List.mem_singleton] at hanew
        rw [hanew] at hns hnsab hl
        exact absurd (hnewsel b hbA (hnsab ▸ hns) hnsab.symm hl.symm) (hany b hbA)
      · rw [List.mem_singleton] at hanew hbnew
        rw [hanew, hbnew]
    · intro a ha hd
      rcases List.mem_append.1 ha with ha | ha
      · exact hinv.lastValue_of_ne ha hd fun hka => hany a ha (hsel a ha hka.symm)
      · rw [List.mem_singleton] at ha
        subst ha
        rw [hnew]
        exact hnewdecl hd

/-- Setting the entry `(k, v)` in the namespace `U` that `k` gets: the record of `U` and the
local part takes the prefix and the value, or a new record is added. -/
theorem setNs (hinv : AttrsInv σ args P A) {k : String} {v : Spec} {q : QName} {U text : String}
    (hq : QName.parse? k = some q) (hU : attrNamespace σ q = some U)
    (hf : Spec.flatten v args = some text) :
    AttrsInv σ args (P ++ [(k, v)])
      (if A.any (fun a => a.ns == some U && a.localName == q.localName) then
        Tree.updateFirst (fun a => a.ns == some U && a.localName == q.localName)
          (fun a => { a with prefixName := q.prefixName, value := text }) A
      else A ++ [⟨q.prefixName, q.localName, some U, text⟩]) := by
  have hk : q.toString = k := (QName.parse?_eq_some_iff.1 hq).2
  have hlast : Scope.lastValue (P ++ [(k, v)]) args k = some text := by
    simp [Scope.lastValue_append_singleton, hf]
  -- a record of `U` and `q`'s local part, given `q`'s prefix, is named `k`
  have hname : ∀ a : Attr, a.localName = q.localName →
      ({ a with prefixName := q.prefixName, value := text } : Attr).name = k := by
    intro a hl
    rw [Attr.name_eq_toString]
    show (QName.mk q.prefixName a.localName).toString = k
    rw [hl, hk]
  have hnew : (⟨q.prefixName, q.localName, some U, text⟩ : Attr).name = k :=
    hname ⟨q.prefixName, q.localName, some U, text⟩ rfl
  refine hinv.upsert (fun a ha hak => ?_) (fun a ha b hb hpa hpb => ?_) (fun a hpa => ?_)
    (fun a _ hpa => ?_) (fun _ _ _ _ => hlast) hnew ⟨by rw [hnew, hq], hU.symm, fun _ => rfl⟩
    (fun _ => hlast) (fun a _ _ hns hl => by simp [hns, hl])
  · obtain ⟨-, hl, hns⟩ := (hinv.made a ha).eq_of_name hak hq
    simp [hl, hns, hU]
  · simp only [Bool.and_eq_true, beq_iff_eq] at hpa hpb
    exact hinv.ns_unique a ha b hb (by simp [hpa.1]) (hpa.1.trans hpb.1.symm)
      (hpa.2.trans hpb.2.symm)
  · simp only [Bool.and_eq_true, beq_iff_eq] at hpa
    exact ⟨hname a hpa.2, rfl, rfl⟩
  · simp only [Bool.and_eq_true, beq_iff_eq] at hpa
    refine ⟨?_, ?_, by simp [hpa.1]⟩
    · rw [hname a hpa.2, hq]
      show some q = some ⟨q.prefixName, a.localName⟩
      rw [hpa.2]
    · simp only [hpa.1, hpa.2, ← hU]

/-- Setting the entry `(k, v)` of an unprefixed name that is no declaration: the record of
that name takes the value, or a plain record is added. -/
theorem setPlain (hinv : AttrsInv σ args P A) {k : String} {v : Spec} {text : String}
    (hq : QName.parse? k = some ⟨none, k⟩) (hx : k ≠ "xmlns") :
    AttrsInv σ args (P ++ [(k, v)])
      (if A.any (·.name == k) then Tree.updateFirst (·.name == k) (fun a => { a with value := text }) A
      else A ++ [⟨none, k, none, text⟩]) := by
  -- a record named `k` is plain, so it declares nothing
  have hplain : ∀ a ∈ A, a.name = k → Xml.declaredBy a = none := fun a ha hak => by
    obtain ⟨hp, hl, -⟩ := (hinv.made a ha).eq_of_name hak hq
    simp [Xml.declaredBy, hp, hl, hx]
  refine hinv.upsert (fun a _ hak => by simp [hak])
    (fun a ha b hb hpa hpb => List.inj_on_of_nodup_map hinv.names_nodup ha hb (by simp_all))
    (fun a hpa => ⟨(beq_iff_eq.1 hpa : a.name = k), rfl, rfl⟩)
    (fun a ha _ => ⟨(hinv.made a ha).parse, (hinv.made a ha).ns_eq, (hinv.made a ha).prefixed⟩)
    (fun a ha hpa hd => ?_) rfl ⟨hq, by simp [attrNamespace, QName.isDeclaration, hx],
      fun h => by cases h⟩
    (fun hd => by simp [Xml.declaredBy, hx] at hd) (fun a _ hns hnsab _ => ?_)
  · rw [show Xml.declaredBy { a with value := text } = Xml.declaredBy a from rfl,
      hplain a ha (by simpa using hpa)] at hd
    cases hd
  · rw [hnsab] at hns
    cases hns

/-- An entry that sets nothing: its key is no qualified name, or its value does not flatten. -/
theorem skip (hinv : AttrsInv σ args P A) {k : String} {v : Spec}
    (hskip : QName.parse? k = none ∨ Spec.flatten v args = none) : AttrsInv σ args (P ++ [(k, v)]) A where
  names_nodup := hinv.names_nodup
  made := hinv.made
  ns_unique := hinv.ns_unique
  declared_last a ha hd := by
    rw [Scope.lastValue_append_singleton]
    split
    · next hk =>
      rcases hskip with hp | hf
      · have := (hinv.made a ha).parse
        rw [← hk, hp] at this
        cases this
      · rw [hf, Option.none_or]
        exact hinv.declared_last a ha hd
    · exact hinv.declared_last a ha hd

end AttrsInv

/-! ## Setting the attributes of a new element -/

/-- The tree while the attribute entries of the new element `el` are set: every other node is
as in `t₀`, and `el` is `e₀` with records that satisfy the invariant after the entries `P`. -/
def Settling (t₀ : Tree) (el : NodeId) (e₀ : Element) (σ : Scope) (args : List Spec)
    (P : List (String × Spec)) (t : Tree) : Prop :=
  (∀ m, m ≠ el → t.get m = t₀.get m) ∧
    ∃ A, t.element? el = some { e₀ with attrs := A } ∧ AttrsInv σ args P A

namespace Settling

variable {t₀ t t' : Tree} {el : NodeId} {e₀ : Element} {σ : Scope} {args : List Spec}
  {P : List (String × Spec)}

theorem modifyElement (hs : Settling t₀ el e₀ σ args P t) {A A' : List Attr}
    (hel : t.element? el = some { e₀ with attrs := A }) (hinv : AttrsInv σ args P' A') :
    Settling t₀ el e₀ σ args P' (t.modifyElement el fun e => { e with attrs := A' }) := by
  refine ⟨fun m hm => ?_, A', ?_, hinv⟩
  · rw [← hs.1 m hm]
    simp only [Tree.modifyElement, Tree.get_modify, Ne.symm hm, false_and, if_false]
  · rw [Tree.element?_modifyElement, if_pos rfl, hel]
    rfl

theorem setAttributeNs (hs : Settling t₀ el e₀ σ args P t) {k : String} {v : Spec} {q : QName}
    {U text : String} (h : t.setAttributeNs el U k text = .ok t') (hq : QName.parse? k = some q)
    (hU : attrNamespace σ q = some U) (hf : Spec.flatten v args = some text) :
    Settling t₀ el e₀ σ args (P ++ [(k, v)]) t' := by
  obtain ⟨A, hel, hinv⟩ := hs.2
  simp only [Tree.setAttributeNs, hq, hel] at h
  cases h
  exact hs.modifyElement hel (hinv.setNs hq hU hf)

theorem setAttribute (hs : Settling t₀ el e₀ σ args P t) {k : String} {v : Spec} {text : String}
    (h : t.setAttribute el k text = .ok t') (hq : QName.parse? k = some ⟨none, k⟩)
    (hx : k ≠ "xmlns") : Settling t₀ el e₀ σ args (P ++ [(k, v)]) t' := by
  obtain ⟨A, hel, hinv⟩ := hs.2
  simp only [Tree.setAttribute, hel] at h
  split at h
  · cases h
  · cases h
    exact hs.modifyElement hel (hinv.setPlain hq hx)

theorem triple_setAttrEntry (entry : String × Spec) :
    BuildM.Triple (Settling t₀ el e₀ σ args P) (setAttrEntry el σ args .strict entry)
      fun _ => Settling t₀ el e₀ σ args (P ++ [entry]) := by
  obtain ⟨k, v⟩ := entry
  intro t u t' hs hrun
  unfold setAttrEntry at hrun
  dsimp only at hrun
  cases hq : QName.parse? k with
  | none =>
    simp only [hq] at hrun
    cases hrun
    exact ⟨hs.1, by obtain ⟨A, hel, hinv⟩ := hs.2; exact ⟨A, hel, hinv.skip (.inl hq)⟩⟩
  | some q =>
    cases hf : Spec.flatten v args with
    | none =>
      simp only [hq, hf] at hrun
      cases hrun
      exact ⟨hs.1, by obtain ⟨A, hel, hinv⟩ := hs.2; exact ⟨A, hel, hinv.skip (.inr hf)⟩⟩
    | some text =>
      simp only [hq, hf] at hrun
      by_cases hd : q.isDeclaration = true
      · -- a declaration, in the namespace of declarations
        simp only [hd, if_true] at hrun
        exact hs.setAttributeNs (BuildM.edit_eq_ok hrun) hq (by simp [attrNamespace, hd]) hf
      · simp only [hd, Bool.false_eq_true, if_false] at hrun
        cases hp : q.prefixName with
        | some ap =>
          cases hns : σ.namespaceOf? ap with
          | some uri =>
            simp only [hp, hns] at hrun
            exact hs.setAttributeNs (BuildM.edit_eq_ok hrun) hq
              (by simp [attrNamespace, hd, hp, hns]) hf
          | none =>
            -- an unbound prefix fails the strict build
            simp only [hp, hns, beq_self_eq_true, if_true] at hrun
            cases hrun
        | none =>
          simp only [hp] at hrun
          have hk : q.toString = k := (QName.parse?_eq_some_iff.1 hq).2
          have hqk : q = ⟨none, k⟩ := by
            rw [← hk]
            obtain ⟨pre, loc⟩ := q
            simp only at hp
            simp [hp, QName.toString]
          subst hqk
          exact hs.setAttribute (BuildM.edit_eq_ok hrun) hq
            (by simpa [QName.isDeclaration] using hd)

theorem triple_forM (R : List (String × Spec)) :
    BuildM.Triple (Settling t₀ el e₀ σ args P) (R.forM (setAttrEntry el σ args .strict))
      fun _ => Settling t₀ el e₀ σ args (P ++ R) := by
  induction R generalizing P with
  | nil => simpa using BuildM.triple_pure (Q := fun _ => Settling t₀ el e₀ σ args P) fun t h => h
  | cons e R ih =>
    refine (triple_setAttrEntry e).bind fun _ => ?_
    simpa using ih (P := P ++ [e])

end Settling

/-! ## The element made -/

/-- The element a strict build makes from a name `q`, entries that declare trimmed URIs and
bind no reserved prefix, and a scope with no reserved binding, is coherent. -/
theorem coherent_made {scope : Scope} {attrs : List (String × Spec)} {args : List Spec}
    (hscope : scope.NoReservedBinding) (ha : DeclaresTrimmed attrs args) {qn : String} {q : QName}
    (hq : QName.parse? qn = some q)
    (hbound : ∀ p, q.prefixName = some p → ((scope.declare attrs args).1.namespaceOf? p).isSome)
    {A : List Attr} (hinv : AttrsInv (scope.declare attrs args).1 args (Name.sortEntries attrs) A) :
    Xml.Coherent ⟨q.prefixName, q.localName,
      (scope.declare attrs args).1.namespaceOf? (q.prefixName.getD ""), A⟩ := by
  set σ := (scope.declare attrs args).1 with hσ
  have hres : σ.NoReservedBinding := ha.noReservedBinding hscope
  -- every binding the element uses is the scope's
  have huses : ∀ x ∈ Xml.uses ⟨q.prefixName, q.localName, σ.namespaceOf? (q.prefixName.getD ""), A⟩,
      x.2 = (σ.namespaceOf? x.1).getD "" := by
    intro x hx
    rcases Xml.mem_uses.1 hx with ⟨-, rfl⟩ | ⟨a, haA, p, u, hp, hpx, hu, rfl⟩
    · rfl
    · rw [(hinv.made a haA).ns_eq] at hu
      simp only [attrNamespace, QName.isDeclaration, hp, beq_iff_eq, hpx, if_false] at hu
      rw [hu]
      rfl
  -- a declaration on the element holds the value the scope binds, and is of no reserved prefix
  have hdecl : ∀ a ∈ A, ∀ p, Xml.declaredBy a = some p →
      σ.get? p = some a.value ∧ p ≠ "xml" ∧ p ≠ "xmlns" := by
    intro a haA p hd
    have hdk : Name.declares? a.name = some p := (Xml.declares?_name (hinv.made a haA).parse).trans hd
    have hvalid := Xml.valid_of_declares? hdk
    have hlast := hinv.declared_last a haA (by simp [hd])
    rw [Scope.lastValue, Name.filter_sortEntries, ← Scope.lastValue,
      Xml.eq_declarationName_of_declares? hdk] at hlast
    obtain ⟨e, he, hk, -⟩ := Scope.mem_of_lastValue hlast
    have hde : Name.declares? e.1 = some p := hk ▸ Xml.declares?_declarationName hvalid
    exact ⟨ha.get?_declare scope hvalid hlast, (ha e he p hde).1, (ha e he p hde).2.1⟩
  refine ⟨hinv.names_nodup, ?_, fun a haA => (hinv.made a haA).parse, ?_, ?_, ?_, ?_, ?_, ?_, ?_, ?_⟩
  · rw [show Element.tagName _ = q.toString by
      unfold Element.tagName QName.toString; cases q.prefixName <;> rfl,
      (QName.parse?_eq_some_iff.1 hq).2, hq]
  · cases hp : q.prefixName with
    | none => exact .inl rfl
    | some p => exact .inr (hbound p hp)
  · intro hp
    have := hbound "xmlns" hp
    rw [hres.namespaceOf?_xmlns] at this
    cases this
  · intro h
    exact Scope.namespaceOf?_ne_empty h rfl
  · intro a haA p hp
    have hm := hinv.made a haA
    obtain ⟨u, hu⟩ := Option.isSome_iff_exists.1 (hm.prefixed (by simp [hp]))
    refine ⟨u, hu, ?_, fun hx => ?_⟩
    · rw [hm.ns_eq, attrNamespace] at hu
      split at hu
      · cases hu
        decide
      · simp only [hp] at hu
        exact Scope.namespaceOf?_ne_empty hu
    · rw [hm.ns_eq, attrNamespace, if_pos (by simp [QName.isDeclaration, hp, hx])] at hu
      exact (Option.some.inj hu).symm
  · intro x hx y hy hxy
    rw [huses x hx, huses y hy, hxy]
  · intro x hx hxml
    rw [huses x hx, hxml, hres.namespaceOf?_xml]
    rfl
  · intro x hx a haA hd
    rw [huses x hx, Scope.namespaceOf?_getD (hdecl a haA x.1 hd).1]
  · intro a haA
    constructor
    · intro hd
      exact (hdecl a haA _ hd).2.1 rfl
    · intro hd
      exact (hdecl a haA _ hd).2.2 rfl

/-- Once a new element is made at the end of the arena with the namespace its scope gives its
prefix, setting its attributes under the strict policy leaves every element coherent. -/
theorem elements_of_made {t t' : Tree} {doc : NodeId} {scope : Scope}
    {attrs : List (String × Spec)} {args : List Spec} (ht : Tree.Elements Xml.Coherent t)
    (hscope : scope.NoReservedBinding) (ha : DeclaresTrimmed attrs args) {qn : String} {q : QName}
    (hq : QName.parse? qn = some q)
    (hbound : ∀ p, q.prefixName = some p → ((scope.declare attrs args).1.namespaceOf? p).isSome)
    {u : Unit}
    (hset : (Name.sortEntries attrs).forM (setAttrEntry t.size (scope.declare attrs args).1 args .strict)
      (t.alloc (.element ⟨q.prefixName, q.localName,
        (scope.declare attrs args).1.namespaceOf? (q.prefixName.getD ""), []⟩) (some doc)).1 =
        .ok u t') :
    Tree.Elements Xml.Coherent t' := by
  set e₀ : Element := ⟨q.prefixName, q.localName,
    (scope.declare attrs args).1.namespaceOf? (q.prefixName.getD ""), []⟩ with he₀
  have h₀ : Settling (t.alloc (.element e₀) (some doc)).1 t.size e₀ (scope.declare attrs args).1
      args [] (t.alloc (.element e₀) (some doc)).1 :=
    ⟨fun _ _ => rfl, [], by simp [Tree.element?_alloc, he₀], ⟨List.nodup_nil, by simp, by simp,
      by simp⟩⟩
  obtain ⟨hframe, A, hel, hinv⟩ := Settling.triple_forM _ _ u t' h₀ hset
  intro m e he
  by_cases hm : m = t.size
  · -- the new element, with the attributes set
    subst hm
    rw [hel, Option.some.injEq] at he
    subst he
    rw [List.nil_append] at hinv
    exact coherent_made hscope ha hq hbound hinv
  · have hget : t'.get m = t.get m := by
      rw [hframe m hm, Tree.get_alloc, if_neg hm]
    rw [Tree.element?, hget] at he
    exact ht m e he

/-- Making an element under the strict policy keeps every element coherent, and the scope for
its children binds no reserved prefix. -/
theorem triple_materialize (doc : NodeId) (tag : TagName) {scope : Scope}
    {attrs : List (String × Spec)} {args : List Spec} (hscope : scope.NoReservedBinding)
    (ha : DeclaresTrimmed attrs args) :
    BuildM.Triple (Tree.Elements Xml.Coherent) (materialize doc tag scope attrs args .strict)
      fun r t => Tree.Elements Xml.Coherent t ∧ r.2.NoReservedBinding := by
  intro t r t' ht hrun
  unfold materialize at hrun
  obtain ⟨⟨qn, pfx⟩, t₁, hcheck, hrest⟩ := BuildM.bind_eq_ok hrun
  obtain ⟨hresolve, h₁⟩ := BuildM.check_eq_ok hcheck
  rw [h₁] at hrest
  dsimp only at hrest
  obtain ⟨q, hq, hpfx⟩ := TagName.resolve_eq_ok hresolve
  have hqn : q.toString = qn := (QName.parse?_eq_some_iff.1 hq).2
  set σ := (scope.declare attrs args).1 with hσ
  set e₀ : Element := ⟨q.prefixName, q.localName, σ.namespaceOf? pfx, []⟩ with he₀
  -- once `e₀` is made at the end of the arena, its attributes are set and nothing else changes
  have hfinish : ∀ t₂, t₂ = (t.alloc (.element e₀) (some doc)).1 →
      ((Name.sortEntries attrs).forM (setAttrEntry t.size σ args .strict) >>=
        fun _ => pure (t.size, σ)) t₂ = .ok r t' →
      (∀ p, q.prefixName = some p → (σ.namespaceOf? p).isSome) →
      Tree.Elements Xml.Coherent t' ∧ r.2.NoReservedBinding := by
    intro t₂ ht₂ hloop hbound
    obtain ⟨u, t₃, hset, hret⟩ := BuildM.bind_eq_ok hloop
    cases hret
    rw [ht₂, he₀, ← hpfx] at hset
    exact ⟨elements_of_made ht hscope ha hq hbound hset, ha.noReservedBinding hscope⟩
  cases hns : σ.namespaceOf? pfx with
  | some uri =>
    rw [hns] at hrest
    obtain ⟨el, t₂, hmake, hloop⟩ := BuildM.bind_eq_ok hrest
    have hcreate := BuildM.make_eq_ok hmake
    simp only [Tree.createElementNs, hq, Except.ok.injEq] at hcreate
    obtain rfl : el = t.size := by rw [← Tree.alloc_snd, hcreate]
    refine hfinish t₂ ?_ hloop fun p hp => ?_
    · have hne : uri.isEmpty = false := by simpa using Scope.namespaceOf?_ne_empty hns
      rw [he₀, hns]
      simpa [hne] using (congrArg Prod.fst hcreate).symm
    · rw [← hpfx, hp, Option.getD_some] at hns
      rw [hns, Option.isSome_some]
  | none =>
    rw [hns] at hrest
    by_cases hp : pfx.isEmpty
    · -- no prefix: an element in no namespace
      simp only [hp, Bool.not_true, Bool.false_and, Bool.false_eq_true, if_false] at hrest
      obtain ⟨el, t₂, hmake, hloop⟩ := BuildM.bind_eq_ok hrest
      have hcreate := BuildM.make_eq_ok hmake
      have hpre : q.prefixName = none := by
        cases hqp : q.prefixName with
        | none => rfl
        | some p =>
          have := Xml.isNCName_prefix_of_parse? (hqp ▸ hq : QName.parse? qn = some ⟨some p, q.localName⟩)
          rw [hqp] at hpfx
          simp [← hpfx, String.isEmpty_iff] at hp
          simp [hp, Name.isNCName, Name.isNCNameChars] at this
      have hqloc : q.localName = qn := by
        rw [← hqn, QName.toString, hpre]
      simp only [Tree.createElement, Name.isQName, hq, Option.isSome_some, if_true,
        Except.ok.injEq] at hcreate
      obtain rfl : el = t.size := by rw [← Tree.alloc_snd, hcreate]
      refine hfinish t₂ ?_ hloop fun p hp' => by simp [hpre] at hp'
      rw [he₀, hns, hpre, hqloc]
      exact (congrArg Prod.fst hcreate).symm
    · simp only [hp, Bool.not_false, Bool.true_and, beq_self_eq_true, if_true] at hrest
      obtain ⟨_, _, hthrow, -⟩ := BuildM.bind_eq_ok hrest
      cases hthrow

end Markup
