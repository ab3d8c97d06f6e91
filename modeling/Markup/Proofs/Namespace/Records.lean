import Markup.Proofs.Build.Shift
import Markup.Proofs.Namespace.Gather

/-!
# What a new element's records say of its scope

An element is made in a scope `σ`. Its declarations extend `σ` to the scope `σE` its children
are built in, and its attribute records are then set in key order. A gathered scope reads an
element through the bindings it offers (`Element.bindings`): its own prefix and namespace, its
declarations, and the prefixes of its records in namespaces. Under either policy, these say
what `σE` says: read at a prefix, `σE` is the first binding the element offers, or else `σ`
(`materialize_scope`).

Three kinds of declarations would make the records say something else:

* a declared URI with blanks around it is trimmed in `σE`, while its record keeps the blanks;
* a declaration of the prefix `xmlns` has the namespace and local part of the default
  declaration, so whichever is set second takes over the other's record;
* a prefix bound to the namespace of declarations puts an attribute in that namespace, where
  it takes over the record of the declaration its local part names.

`DeclaresGatherable` rules out the first two among the entries, and `Scope.NoXmlnsBinding`
the last in the scope.

The records are followed entry by entry with `RecordsAgree`; the one delicate step is a
declaration, whose record is found by namespace and local part, and `name_of_xmlns` shows that
the record found is the one of the same key.
-/

namespace Markup

/-- The namespace declarations among the entries are read back alike by a gathered scope: each
flattens to a URI with no blanks around it that is not the namespace of declarations, and none
declares the prefix `xmlns`. -/
def DeclaresGatherable (entries : List (String × Spec)) (args : List Spec) : Prop :=
  ∀ e ∈ entries, ∀ p, Name.declares? e.1 = some p →
    p ≠ "xmlns" ∧ ∀ v, Spec.flatten e.2 args = some v → Text.trim v = v ∧ v ≠ xmlnsNamespace

/-- No prefix resolves to the namespace of declarations. -/
def Scope.NoXmlnsBinding (s : Scope) : Prop :=
  ∀ p, s.namespaceOf? p ≠ some xmlnsNamespace

namespace Scope

theorem namespaceOf?_eq_of_get? {s s' : Scope} {p : String} (h : s.get? p = s'.get? p) :
    s.namespaceOf? p = s'.namespaceOf? p := by
  unfold namespaceOf? resolve?
  rw [h]

theorem namespaceOf?_of_get?_eq_some {s : Scope} {p u : String} (h : s.get? p = some u) :
    s.namespaceOf? p = (some u).filter (!·.isEmpty) := by
  unfold namespaceOf? resolve?
  rw [h]

theorem filter_some_of_namespaceOf? {s : Scope} {p u : String} (h : s.namespaceOf? p = some u) :
    (some u).filter (!·.isEmpty) = some u := by
  have hne := namespaceOf?_ne_empty h
  simp [Option.filter, hne]

end Scope

namespace Name

theorem mem_sortEntries {α : Type} {entries : List (String × α)} {e : String × α} :
    e ∈ sortEntries entries ↔ e ∈ entries :=
  (List.mergeSort_perm entries _).mem_iff

end Name

theorem isSome_parse?_of_declares? {k p : String} (h : Name.declares? k = some p) :
    (QName.parse? k).isSome := by
  rw [Xml.eq_declarationName_of_declares? h]
  rcases Xml.valid_of_declares? h with rfl | hp
  · decide
  · have hne : p.isEmpty = false := by
      cases h : p.isEmpty
      · rfl
      · simp [String.isEmpty_iff.1 h, Name.isNCName, Name.isNCNameChars] at hp
    have hparse : QName.parse? ("xmlns" ++ ":" ++ p) = some ⟨some "xmlns", p⟩ :=
      QName.parse?_eq_some_iff.2 ⟨by simp [hp]; decide, rfl⟩
    rw [Xml.declarationName, hne, if_neg Bool.false_ne_true,
      show "xmlns:" ++ p = "xmlns" ++ ":" ++ p by simp, hparse]
    rfl

namespace DeclaresGatherable

variable {attrs : List (String × Spec)} {args : List Spec}

theorem mono (h : DeclaresGatherable attrs args) {attrs' : List (String × Spec)}
    (hsub : ∀ e ∈ attrs', e ∈ attrs) : DeclaresGatherable attrs' args :=
  fun e he => h e (hsub e he)

/-- The declarations bind a prefix they declare to the value of the last one, which is not the
namespace of declarations. -/
theorem get?_declare (h : DeclaresGatherable attrs args) (s : Scope) {p v : String}
    (hp : p = "" ∨ Name.isNCName p = true)
    (hl : Scope.lastValue attrs args (Xml.declarationName p) = some v) :
    (s.declare attrs args).1.get? p = some v ∧ v ≠ xmlnsNamespace := by
  rw [Scope.get?_declare s attrs args hp, hl]
  obtain ⟨e, he, hk, hf⟩ := Scope.mem_of_lastValue hl
  have hd : Name.declares? e.1 = some p := hk ▸ Xml.declares?_declarationName hp
  obtain ⟨htrim, hv⟩ := (h e he p hd).2 v hf
  exact ⟨congrArg some htrim, hv⟩

theorem noXmlnsBinding (h : DeclaresGatherable attrs args) {s : Scope} (hs : s.NoXmlnsBinding) :
    (s.declare attrs args).1.NoXmlnsBinding := by
  intro p hp
  by_cases hvalid : p = "" ∨ Name.isNCName p = true
  · cases hl : Scope.lastValue attrs args (Xml.declarationName p) with
    | none =>
      have hget : (s.declare attrs args).1.get? p = s.get? p := by
        rw [Scope.get?_declare s attrs args hvalid, hl]
      rw [Scope.namespaceOf?_eq_of_get? hget] at hp
      exact hs p hp
    | some v =>
      obtain ⟨hget, hv⟩ := h.get?_declare s hvalid hl
      rw [Scope.namespaceOf?_of_get?_eq_some hget, Option.filter_eq_some_iff] at hp
      exact hv (Option.some.inj hp.1)
  · rw [Scope.namespaceOf?_eq_of_get? (Scope.get?_declare_of_not_declarable s attrs args hvalid)] at hp
    exact hs p hp

end DeclaresGatherable

/-! ## The records of an element while its attributes are set -/

/-- The attribute records `A` of an element made in the scope `σ`, once the entries `P` are set:
a record named as a declaration is in the namespace of declarations and holds the last value set
for its key; any other record in a namespace is in the one `σ` gives its prefix; a record in a
namespace reads back as its prefix and local part; and every declaration set has its record. -/
structure RecordsAgree (σ : Scope) (args : List Spec) (P : List (String × Spec)) (A : List Attr) :
    Prop where
  declaration : ∀ a ∈ A, (Name.declares? a.name).isSome →
    a.ns = some xmlnsNamespace ∧ Scope.lastValue P args a.name = some a.value
  inScope : ∀ a ∈ A, Name.declares? a.name = none → ∀ u, a.ns = some u →
    σ.namespaceOf? (a.prefixName.getD "") = some u
  parse : ∀ a ∈ A, a.ns.isSome → QName.parse? a.name = some ⟨a.prefixName, a.localName⟩
  declared : ∀ k v, (Name.declares? k).isSome → Scope.lastValue P args k = some v →
    ∃ a ∈ A, a.name = k

theorem Tree.mem_updateFirst_of_not {α : Type} {q : α → Bool} {f : α → α} {l : List α} {a : α}
    (ha : a ∈ l) (hq : q a = false) : a ∈ Tree.updateFirst q f l := by
  induction l with
  | nil => cases ha
  | cons b l ih =>
    simp only [Tree.updateFirst]
    rcases List.mem_cons.1 ha with rfl | ha
    · simp [hq]
    · split
      · exact List.mem_cons_of_mem _ ha
      · exact List.mem_cons_of_mem _ (ih ha)

theorem Attr.name_set_prefix (a : Attr) (q : QName) (text : String) (hl : a.localName = q.localName) :
    ({ a with prefixName := q.prefixName, value := text } : Attr).name = q.toString := by
  rw [Attr.name_eq_toString]
  show (QName.mk q.prefixName a.localName).toString = q.toString
  rw [hl]

namespace RecordsAgree

variable {σ : Scope} {args : List Spec} {P : List (String × Spec)} {A : List Attr}

theorem lastValue_of_ne {k k' : String} (v : Spec) (hk : k' ≠ k) :
    Scope.lastValue (P ++ [(k, v)]) args k' = Scope.lastValue P args k' := by
  rw [Scope.lastValue_append_singleton, if_neg (Ne.symm hk)]

/-- An entry that sets nothing: its key is no qualified name, or its value does not flatten. -/
theorem skip (h : RecordsAgree σ args P A) {k : String} {v : Spec}
    (hskip : QName.parse? k = none ∨ Spec.flatten v args = none) :
    RecordsAgree σ args (P ++ [(k, v)]) A := by
  -- the last value of every declaration key is as before
  have hlast : ∀ k', (QName.parse? k').isSome →
      Scope.lastValue (P ++ [(k, v)]) args k' = Scope.lastValue P args k' := by
    intro k' hk'
    rw [Scope.lastValue_append_singleton]
    split
    · next hkk =>
      simp only at hkk
      subst hkk
      rcases hskip with hp | hf
      · rw [hp] at hk'
        cases hk'
      · rw [hf, Option.none_or]
    · rfl
  refine ⟨fun a ha hd => ?_, h.inScope, h.parse, fun k' v' hd hl => ?_⟩
  · obtain ⟨hns, hl⟩ := h.declaration a ha hd
    refine ⟨hns, ?_⟩
    rw [hlast _ (by simpa using Option.isSome_of_eq_some (h.parse a ha (by simp [hns])))]
    exact hl
  · obtain ⟨p, hp⟩ := Option.isSome_iff_exists.1 hd
    rw [hlast _ (isSome_parse?_of_declares? hp)] at hl
    exact h.declared k' v' hd hl

/-- Setting an entry whose key is no declaration: every record afterwards is an old one or one
named by the key, which is in the namespace its prefix has, and the declaration records stay. -/
theorem set_of_not_declaration (h : RecordsAgree σ args P A) {k : String} {v : Spec}
    (hk : Name.declares? k = none) {A' : List Attr}
    (hnew : ∀ x ∈ A', x ∈ A ∨ (x.name = k ∧
      (∀ u, x.ns = some u → σ.namespaceOf? (x.prefixName.getD "") = some u) ∧
      (x.ns.isSome → QName.parse? x.name = some ⟨x.prefixName, x.localName⟩)))
    (hkeep : ∀ a ∈ A, (Name.declares? a.name).isSome → a ∈ A') :
    RecordsAgree σ args (P ++ [(k, v)]) A' := by
  have hne : ∀ k', (Name.declares? k').isSome → k' ≠ k := by
    rintro k' hd rfl
    rw [hk] at hd
    cases hd
  refine ⟨fun x hx hd => ?_, fun x hx hd u hu => ?_, fun x hx hns => ?_, fun k' v' hd hl => ?_⟩
  · rcases hnew x hx with hx | ⟨rfl, -, -⟩
    · rw [lastValue_of_ne v (hne _ hd)]
      exact h.declaration x hx hd
    · rw [hk] at hd
      cases hd
  · rcases hnew x hx with hx | ⟨-, hsc, -⟩
    · exact h.inScope x hx hd u hu
    · exact hsc u hu
  · rcases hnew x hx with hx | ⟨-, -, hpa⟩
    · exact h.parse x hx hns
    · exact hpa hns
  · rw [lastValue_of_ne v (hne _ hd)] at hl
    obtain ⟨a, ha, rfl⟩ := h.declared k' v' hd hl
    exact ⟨a, hkeep a ha hd, rfl⟩

/-- Setting an entry by qualified name: the record of that name takes the value, or a plain
record is added. -/
theorem setPlain (h : RecordsAgree σ args P A) {k : String} {v : Spec} {text : String}
    (hk : Name.declares? k = none) :
    RecordsAgree σ args (P ++ [(k, v)])
      (if A.any (·.name == k) then Tree.updateFirst (·.name == k) (fun a => { a with value := text }) A
      else A ++ [⟨none, k, none, text⟩]) := by
  have hne : ∀ a ∈ A, (Name.declares? a.name).isSome → (a.name == k) = false := by
    intro a _ hd
    by_contra hak
    rw [show a.name = k by simpa using hak, hk] at hd
    cases hd
  refine h.set_of_not_declaration hk (fun x hx => ?_) (fun a ha hd => ?_)
  · split at hx
    · rcases Tree.mem_updateFirst hx with hx | ⟨a, ha, hak, rfl⟩
      · exact .inl hx
      · -- only the value changes
        have hak : a.name = k := by simpa using hak
        refine .inr ⟨hak, fun u hu => h.inScope a ha (hak ▸ hk) u hu, h.parse a ha⟩
    · rcases List.mem_append.1 hx with hx | hx
      · exact .inl hx
      · rw [List.mem_singleton] at hx
        subst hx
        exact .inr ⟨rfl, (fun u hu => by cases hu), (fun hns => by cases hns)⟩
  · split
    · exact Tree.mem_updateFirst_of_not ha (hne a ha hd)
    · exact List.mem_append_left _ ha

/-- Setting an attribute with a prefix bound in `σ`, in the namespace `u` it is bound to: the
record of `u` and the local part takes the prefix and the value, or a new record is added. -/
theorem setScoped (h : RecordsAgree σ args P A) (hσ : σ.NoXmlnsBinding) {k : String} {v : Spec}
    {q : QName} {ap u text : String} (hq : QName.parse? k = some q) (hd : q.isDeclaration = false)
    (hp : q.prefixName = some ap) (hu : σ.namespaceOf? ap = some u) :
    RecordsAgree σ args (P ++ [(k, v)])
      (if A.any (fun a => a.ns == some u && a.localName == q.localName) then
        Tree.updateFirst (fun a => a.ns == some u && a.localName == q.localName)
          (fun a => { a with prefixName := q.prefixName, value := text }) A
      else A ++ [⟨q.prefixName, q.localName, some u, text⟩]) := by
  have hk : Name.declares? k = none := by rw [QName.declares?_of_parse? hq, hd]; rfl
  have hkq : q.toString = k := (QName.parse?_eq_some_iff.1 hq).2
  -- a record named `k` with `q`'s parts, in `u`, is one the invariant allows
  have hmade : ∀ x : Attr, x.name = k → x.prefixName = q.prefixName → x.localName = q.localName →
      x.ns = some u → x.name = k ∧
        (∀ u', x.ns = some u' → σ.namespaceOf? (x.prefixName.getD "") = some u') ∧
        (x.ns.isSome → QName.parse? x.name = some ⟨x.prefixName, x.localName⟩) := by
    intro x hx hxp hxl hxu
    refine ⟨hx, fun u' hu' => ?_, fun _ => ?_⟩
    · rw [hxu] at hu'
      cases hu'
      rw [hxp, hp]
      exact hu
    · rw [hx, hq, hxp, hxl]
  refine h.set_of_not_declaration hk (fun x hx => ?_) (fun a ha hda => ?_)
  · split at hx
    · rcases Tree.mem_updateFirst hx with hx | ⟨a, -, hsame, rfl⟩
      · exact .inl hx
      · simp only [Bool.and_eq_true, beq_iff_eq] at hsame
        exact .inr (hmade _ ((Attr.name_set_prefix a q text hsame.2).trans hkq) rfl hsame.2 hsame.1)
    · rcases List.mem_append.1 hx with hx | hx
      · exact .inl hx
      · rw [List.mem_singleton] at hx
        subst hx
        exact .inr (hmade _ ((Attr.name_eq_toString _).trans hkq) rfl rfl rfl)
  · -- a declaration record is in the namespace of declarations, which `u` is not
    have hns := (h.declaration a ha hda).1
    have hau : a.ns ≠ some u := by
      intro hau
      rw [hns, Option.some.injEq] at hau
      rw [← hau] at hu
      exact hσ ap hu
    have hne : (a.ns == some u && a.localName == q.localName) = false := by simp [hau]
    split
    · exact Tree.mem_updateFirst_of_not ha hne
    · exact List.mem_append_left _ ha

/-- A record in the namespace of declarations whose local part is that of the declaration key
`k` is the record named `k`, when neither it nor `k` declares `xmlns`. -/
theorem name_of_xmlns (h : RecordsAgree σ args P A) (hσ : σ.NoXmlnsBinding)
    (hP : ∀ e ∈ P, ∀ p, Name.declares? e.1 = some p → p ≠ "xmlns") {k : String} {q : QName}
    (hq : QName.parse? k = some q) (hd : q.isDeclaration = true)
    (hkx : ∀ p, Name.declares? k = some p → p ≠ "xmlns") {a : Attr} (ha : a ∈ A)
    (hns : a.ns = some xmlnsNamespace) (hl : a.localName = q.localName) : a.name = k := by
  -- the record is a declaration: a prefix bound to the namespace of declarations is excluded
  have hda : (Name.declares? a.name).isSome := by
    cases hda : Name.declares? a.name with
    | some _ => rfl
    | none => exact absurd (h.inScope a ha hda _ hns) (hσ _)
  have hpa := h.parse a ha (by simp [hns])
  -- and it does not declare `xmlns`, since an entry of its key was set
  have hax : ∀ p, Name.declares? a.name = some p → p ≠ "xmlns" := by
    intro p hp
    obtain ⟨e, he, hk, -⟩ := Scope.mem_of_lastValue (h.declaration a ha hda).2
    exact hP e he p (hk ▸ hp)
  rw [QName.declares?_of_parse? hpa] at hda hax
  rw [QName.declares?_of_parse? hq] at hkx
  have hkq : q.toString = k := (QName.parse?_eq_some_iff.1 hq).2
  rw [Attr.name_eq_toString, ← hkq]
  obtain ⟨qp, ql⟩ := q
  obtain ⟨ap, al, ans, av⟩ := a
  simp only at hl
  subst hl
  simp only [QName.isDeclaration] at hd hda hax hkx
  -- a declaration name is `xmlns` with no prefix or has the prefix `xmlns`; the local parts
  -- agree, and the mixed cases would declare `xmlns`
  cases ap with
  | none =>
    have hx : al = "xmlns" := by simpa using hda
    cases qp with
    | none => rfl
    | some qp =>
      have hqp : qp = "xmlns" := by simpa using hd
      exact absurd hx (hkx al (by simp [hqp]))
  | some ap =>
    have hap : ap = "xmlns" := by simpa using hda
    cases qp with
    | none =>
      have hx : al = "xmlns" := by simpa using hd
      exact absurd hx (hax al (by simp [hap]))
    | some qp =>
      have hqp : qp = "xmlns" := by simpa using hd
      rw [hap, hqp]

/-- Setting a declaration: the record of the namespace of declarations and the key's local part
takes the key's prefix and the value, or a new record is added. -/
theorem setDeclaration (h : RecordsAgree σ args P A) (hσ : σ.NoXmlnsBinding)
    (hkeys : (A.map Attr.key).Nodup) (hP : ∀ e ∈ P, ∀ p, Name.declares? e.1 = some p → p ≠ "xmlns")
    {k : String} {v : Spec} {q : QName} {text : String} (hq : QName.parse? k = some q)
    (hd : q.isDeclaration = true) (hkx : ∀ p, Name.declares? k = some p → p ≠ "xmlns")
    (hf : Spec.flatten v args = some text) :
    RecordsAgree σ args (P ++ [(k, v)])
      (if A.any (fun a => a.ns == some xmlnsNamespace && a.localName == q.localName) then
        Tree.updateFirst (fun a => a.ns == some xmlnsNamespace && a.localName == q.localName)
          (fun a => { a with prefixName := q.prefixName, value := text }) A
      else A ++ [⟨q.prefixName, q.localName, some xmlnsNamespace, text⟩]) := by
  set same : Attr → Bool := fun a => a.ns == some xmlnsNamespace && a.localName == q.localName
    with hsame
  have hkq : q.toString = k := (QName.parse?_eq_some_iff.1 hq).2
  have hkd : (Name.declares? k).isSome := by rw [QName.declares?_of_parse? hq, hd]; rfl
  have hlast : Scope.lastValue (P ++ [(k, v)]) args k = some text := by
    simp [Scope.lastValue_append_singleton, hf]
  -- the records that `same` picks are named `k`; every other one keeps its last value
  have hsame_name : ∀ a ∈ A, same a = true → a.name = k := by
    intro a ha hs
    simp only [hsame, Bool.and_eq_true, beq_iff_eq] at hs
    exact h.name_of_xmlns hσ hP hq hd hkx ha hs.1 hs.2
  have hother : ∀ a ∈ A, same a = false → (Name.declares? a.name).isSome →
      a.ns = some xmlnsNamespace ∧ Scope.lastValue (P ++ [(k, v)]) args a.name = some a.value := by
    intro a ha hs hda
    obtain ⟨hns, hl⟩ := h.declaration a ha hda
    refine ⟨hns, ?_⟩
    rw [lastValue_of_ne v fun hak => ?_]
    · exact hl
    · -- a record named `k` has the key's local part, so `same` picks it
      have hparts := h.parse a ha (by simp [hns])
      rw [hak, hq, Option.some.injEq] at hparts
      simp only [hsame, hns, beq_self_eq_true, Bool.true_and, beq_eq_false_iff_ne] at hs
      exact hs (by rw [hparts])
  -- the changed record: named `k`, in the namespace of declarations, with the new value
  have hchanged : ∀ a, same a = true →
      ({ a with prefixName := q.prefixName, value := text } : Attr).name = k ∧
      ({ a with prefixName := q.prefixName, value := text } : Attr).ns = some xmlnsNamespace ∧
      QName.parse? ({ a with prefixName := q.prefixName, value := text } : Attr).name =
        some ⟨q.prefixName, a.localName⟩ := by
    intro a hs
    simp only [hsame, Bool.and_eq_true, beq_iff_eq] at hs
    have hname := (Attr.name_set_prefix a q text hs.2).trans hkq
    exact ⟨hname, hs.1, by rw [hname, hq, hs.2]⟩
  split
  · next hany =>
    have hnd : A.Nodup := List.Nodup.of_map _ hkeys
    have huniq : ∀ a ∈ A, ∀ b ∈ A, same a = true → same b = true → a = b := by
      intro a ha b hb hsa hsb
      simp only [hsame, Bool.and_eq_true, beq_iff_eq] at hsa hsb
      exact List.inj_on_of_nodup_map hkeys ha hb (by simp [Attr.key, hsa, hsb])
    rw [updateFirst_eq_map hnd huniq]
    refine ⟨?_, ?_, ?_, ?_⟩
    · simp only [List.mem_map]
      rintro _ ⟨a, ha, rfl⟩ hda
      by_cases hs : same a = true
      · simp only [hs, if_true] at hda ⊢
        obtain ⟨hname, hns, -⟩ := hchanged a hs
        rw [hname]
        exact ⟨hns, hlast⟩
      · simp only [hs, Bool.false_eq_true, if_false] at hda ⊢
        exact hother a ha (by simpa using hs) hda
    · simp only [List.mem_map]
      rintro _ ⟨a, ha, rfl⟩ hnd u hu
      by_cases hs : same a = true
      · simp only [hs, if_true] at hnd
        rw [(hchanged a hs).1] at hnd
        rw [hnd] at hkd
        cases hkd
      · simp only [hs, Bool.false_eq_true, if_false] at hnd hu ⊢
        exact h.inScope a ha hnd u hu
    · simp only [List.mem_map]
      rintro _ ⟨a, ha, rfl⟩ hns
      by_cases hs : same a = true
      · simp only [hs, if_true]
        exact (hchanged a hs).2.2
      · simp only [hs, Bool.false_eq_true, if_false] at hns ⊢
        exact h.parse a ha hns
    · intro k' v' hd' hl
      by_cases hk' : k' = k
      · subst hk'
        obtain ⟨a, ha, hs⟩ := List.any_eq_true.1 hany
        refine ⟨_, List.mem_map.2 ⟨a, ha, rfl⟩, ?_⟩
        simp only [hs, if_true]
        exact (hchanged a hs).1
      · rw [lastValue_of_ne v hk'] at hl
        obtain ⟨a, ha, rfl⟩ := h.declared k' v' hd' hl
        have hs : same a = false := by
          cases hs : same a
          · rfl
          · exact absurd (hsame_name a ha hs) hk'
        exact ⟨a, List.mem_map.2 ⟨a, ha, by simp [hs]⟩, rfl⟩
  · next hany =>
    simp only [List.any_eq_true, not_exists, not_and] at hany
    have hnew : (⟨q.prefixName, q.localName, some xmlnsNamespace, text⟩ : Attr).name = k :=
      (Attr.name_eq_toString _).trans hkq
    refine ⟨fun a ha hda => ?_, fun a ha hnd u hu => ?_, fun a ha hns => ?_, fun k' v' hd' hl => ?_⟩
    · rcases List.mem_append.1 ha with ha | ha
      · exact hother a ha (Bool.eq_false_iff.2 (hany a ha)) hda
      · rw [List.mem_singleton] at ha
        subst ha
        rw [hnew]
        exact ⟨rfl, hlast⟩
    · rcases List.mem_append.1 ha with ha | ha
      · exact h.inScope a ha hnd u hu
      · rw [List.mem_singleton] at ha
        subst ha
        rw [hnew] at hnd
        obtain ⟨p, hp⟩ := Option.isSome_iff_exists.1 hkd
        rw [hp] at hnd
        cases hnd
    · rcases List.mem_append.1 ha with ha | ha
      · exact h.parse a ha hns
      · rw [List.mem_singleton] at ha
        subst ha
        rw [hnew, hq]
    · by_cases hk' : k' = k
      · subst hk'
        exact ⟨_, List.mem_append_right _ (List.mem_singleton_self _), hnew⟩
      · rw [lastValue_of_ne v hk'] at hl
        obtain ⟨a, ha, rfl⟩ := h.declared k' v' hd' hl
        exact ⟨a, List.mem_append_left _ ha, rfl⟩

end RecordsAgree

/-! ## Reading the element back -/

/-- When the element's own prefix and namespace and its records agree with the scope its
declarations make, that scope is read as the element's bindings before the scope it was made
in. -/
theorem namespaceOf?_of_recordsAgree {σ : Scope} {attrs : List (String × Spec)} {args : List Spec}
    (hd : DeclaresGatherable attrs args) {e : Element}
    (hns : ∀ u, e.ns = some u → (σ.declare attrs args).1.namespaceOf? (e.prefixName.getD "") = some u)
    (hA : RecordsAgree (σ.declare attrs args).1 args (Name.sortEntries attrs) e.attrs) :
    (σ.declare attrs args).1.namespaceOf? = Scope.namespaceThrough e.binding? σ.namespaceOf? := by
  set σE := (σ.declare attrs args).1 with hσE
  have hsorted : ∀ k, Scope.lastValue (Name.sortEntries attrs) args k = Scope.lastValue attrs args k := by
    intro k
    unfold Scope.lastValue
    rw [Name.filter_sortEntries]
  -- each binding the element offers says what `σE` says
  have hoffer : ∀ b ∈ e.bindings, σE.namespaceOf? b.1 = (some b.2).filter (!·.isEmpty) := by
    intro b hb
    rcases List.mem_append.1 hb with hb | hb
    · obtain ⟨u, hu, rfl⟩ : ∃ u, e.ns = some u ∧ b = (e.prefixName.getD "", u) := by
        cases hen : e.ns <;> simp_all
      rw [hns u hu]
      exact (Scope.filter_some_of_namespaceOf? (hns u hu)).symm
    · obtain ⟨a, ha, hab⟩ := List.mem_filterMap.1 hb
      unfold Attr.binding at hab
      split at hab
      · -- a declaration holds the last value declared for its prefix, which `σE` binds
        next p hp =>
        cases hab
        obtain ⟨-, hl⟩ := hA.declaration a ha (by simp [hp])
        rw [hsorted, Xml.eq_declarationName_of_declares? hp] at hl
        exact Scope.namespaceOf?_of_get?_eq_some (hd.get?_declare σ (Xml.valid_of_declares? hp) hl).1
      · next hp =>
        obtain ⟨u, hu, rfl⟩ := Option.map_eq_some_iff.1 hab
        have hsc := hA.inScope a ha hp u hu
        rw [hsc]
        exact (Scope.filter_some_of_namespaceOf? hsc).symm
  funext p
  unfold Scope.namespaceThrough
  cases hbp : e.binding? p with
  | some u =>
    obtain ⟨b, hfind, rfl⟩ := Option.map_eq_some_iff.1 hbp
    have hbp' : b.1 = p := by simpa using List.find?_some hfind
    rw [← hbp']
    exact hoffer b (List.mem_of_find?_eq_some hfind)
  | none =>
    -- nothing is offered for `p`, so no declaration of `p` was set
    have hno : ∀ b ∈ e.bindings, b.1 ≠ p := by
      intro b hb hbp'
      have := List.find?_eq_none.1 (Option.map_eq_none_iff.1 hbp) b hb
      simp [hbp'] at this
    by_cases hvalid : p = "" ∨ Name.isNCName p = true
    · cases hl : Scope.lastValue attrs args (Xml.declarationName p) with
      | none => exact Scope.namespaceOf?_eq_of_get? (by rw [Scope.get?_declare σ attrs args hvalid, hl])
      | some v =>
        rw [← hsorted] at hl
        obtain ⟨a, ha, hname⟩ := hA.declared _ v (by rw [Xml.declares?_declarationName hvalid]; rfl) hl
        have hda : Name.declares? a.name = some p := hname ▸ Xml.declares?_declarationName hvalid
        exact absurd rfl (hno (p, a.value) (List.mem_append_right _
          (List.mem_filterMap.2 ⟨a, ha, by simp [Attr.binding, hda]⟩)))
    · exact Scope.namespaceOf?_eq_of_get? (Scope.get?_declare_of_not_declarable σ attrs args hvalid)

/-! ## Setting the attributes of a new element -/

/-- The tree while the attribute entries of the new element `el` are set: it is well formed and
as large as `t₀`, the nodes other than `el` are as in `t₀`, and `el` is `e₀` with records that
agree with `σ` after the entries `P`. -/
def Agreeing (t₀ : Tree) (el : NodeId) (e₀ : Element) (σ : Scope) (args : List Spec)
    (P : List (String × Spec)) (t : Tree) : Prop :=
  t.WellFormed ∧ t.size = t₀.size ∧ (∀ m, m ≠ el → t.get m = t₀.get m) ∧
    ∃ A, t.element? el = some { e₀ with attrs := A } ∧ RecordsAgree σ args P A

namespace Agreeing

variable {t₀ t : Tree} {el : NodeId} {e₀ : Element} {σ : Scope} {args : List Spec}
  {P : List (String × Spec)}

theorem modifyElement (hs : Agreeing t₀ el e₀ σ args P t) {A A' : List Attr}
    {P' : List (String × Spec)} (hel : t.element? el = some { e₀ with attrs := A })
    (hwf : (t.modifyElement el fun e => { e with attrs := A' }).WellFormed)
    (hinv : RecordsAgree σ args P' A') :
    Agreeing t₀ el e₀ σ args P' (t.modifyElement el fun e => { e with attrs := A' }) := by
  obtain ⟨-, hsize, hother, -⟩ := hs
  refine ⟨hwf, by rw [Tree.size_modifyElement, hsize], fun m hm => ?_, A', ?_, hinv⟩
  · rw [← hother m hm]
    simp only [Tree.modifyElement, Tree.get_modify, Ne.symm hm, false_and, if_false]
  · rw [Tree.element?_modifyElement, if_pos rfl, hel]
    rfl

theorem triple_setAttrEntry (hσ : σ.NoXmlnsBinding) (policy : Policy) (entry : String × Spec)
    (hP : ∀ e ∈ P ++ [entry], ∀ p, Name.declares? e.1 = some p → p ≠ "xmlns") :
    BuildM.Triple (Agreeing t₀ el e₀ σ args P) (setAttrEntry el σ args policy entry)
      fun _ => Agreeing t₀ el e₀ σ args (P ++ [entry]) := by
  obtain ⟨k, v⟩ := entry
  intro t u t' hs hrun
  obtain ⟨A, hel, hinv⟩ := hs.2.2.2
  have hP' : ∀ e ∈ P, ∀ p, Name.declares? e.1 = some p → p ≠ "xmlns" :=
    fun e he => hP e (List.mem_append_left _ he)
  have hkx : ∀ p, Name.declares? k = some p → p ≠ "xmlns" :=
    hP (k, v) (List.mem_append_right _ (List.mem_singleton_self _))
  -- setting by qualified name, for a key that is no declaration
  have hplain : ∀ {text : String}, Name.declares? k = none →
      t.setAttribute el k text = .ok t' → Agreeing t₀ el e₀ σ args (P ++ [(k, v)]) t' := by
    intro text hk hset
    have hwf' := hs.1.setAttribute hset
    simp only [Tree.setAttribute, hel] at hset
    split at hset
    · cases hset
    · cases hset
      exact hs.modifyElement hel hwf' (hinv.setPlain hk)
  unfold setAttrEntry at hrun
  dsimp only at hrun
  cases hq : QName.parse? k with
  | none =>
    simp only [hq] at hrun
    cases hrun
    exact ⟨hs.1, hs.2.1, hs.2.2.1, A, hel, hinv.skip (.inl hq)⟩
  | some q =>
    cases hf : Spec.flatten v args with
    | none =>
      simp only [hq, hf] at hrun
      cases hrun
      exact ⟨hs.1, hs.2.1, hs.2.2.1, A, hel, hinv.skip (.inr hf)⟩
    | some text =>
      simp only [hq, hf] at hrun
      by_cases hd : q.isDeclaration = true
      · -- a declaration, in the namespace of declarations
        simp only [hd, if_true] at hrun
        have hset := BuildM.edit_eq_ok hrun
        have hwf' := hs.1.setAttributeNs hset
        simp only [Tree.setAttributeNs, hq, hel] at hset
        cases hset
        exact hs.modifyElement hel hwf' (hinv.setDeclaration hσ (hs.1.attr_keys hel) hP' hq hd hkx hf)
      · have hk : Name.declares? k = none := by
          rw [QName.declares?_of_parse? hq, if_neg hd]
        simp only [hd, Bool.false_eq_true, if_false] at hrun
        cases hp : q.prefixName with
        | some ap =>
          cases hns : σ.namespaceOf? ap with
          | some uri =>
            simp only [hp, hns] at hrun
            have hset := BuildM.edit_eq_ok hrun
            have hwf' := hs.1.setAttributeNs hset
            simp only [Tree.setAttributeNs, hq, hel] at hset
            cases hset
            exact hs.modifyElement hel hwf'
              (hinv.setScoped hσ hq (Bool.eq_false_iff.2 hd) hp hns)
          | none =>
            -- an unbound prefix fails a strict build and is kept as written otherwise
            simp only [hp, hns] at hrun
            cases policy with
            | strict =>
              simp only [beq_self_eq_true, if_true] at hrun
              cases hrun
            | permissive =>
              simp only [reduceCtorEq, beq_iff_eq, if_false] at hrun
              exact hplain hk (BuildM.edit_eq_ok hrun)
        | none =>
          simp only [hp] at hrun
          exact hplain hk (BuildM.edit_eq_ok hrun)

theorem triple_forM (hσ : σ.NoXmlnsBinding) (policy : Policy) (R : List (String × Spec))
    (hR : ∀ e ∈ P ++ R, ∀ p, Name.declares? e.1 = some p → p ≠ "xmlns") :
    BuildM.Triple (Agreeing t₀ el e₀ σ args P) (R.forM (setAttrEntry el σ args policy))
      fun _ => Agreeing t₀ el e₀ σ args (P ++ R) := by
  induction R generalizing P with
  | nil => simpa using BuildM.triple_pure (Q := fun _ => Agreeing t₀ el e₀ σ args P) fun t h => h
  | cons e R ih =>
    refine (triple_setAttrEntry hσ policy e fun x hx => hR x ?_).bind fun _ => ?_
    · simp only [List.mem_append, List.mem_cons] at hx ⊢
      tauto
    · simpa using ih (P := P ++ [e]) fun x hx => hR x (by simpa using hx)

end Agreeing

/-! ## Making an element -/

/-- What making an element does: the element is the next node, the older nodes are as they
were, the tree stays well formed, and the scope returned for the element's children reads as
the element's own bindings before the scope it was made in. -/
structure Materialized (t t' : Tree) (σ σE : Scope) (el : NodeId) : Prop where
  el_eq : el = t.size
  size_eq : t'.size = t.size + 1
  wf : t'.WellFormed
  get_old : ∀ m < t.size, t'.get m = t.get m
  scope : ∃ e, t'.element? el = some e ∧
    σE.namespaceOf? = Scope.namespaceThrough e.binding? σ.namespaceOf?
  no_xmlns : σE.NoXmlnsBinding

/-- Making an element, under either policy, in a scope that binds nothing to the namespace of
declarations and with declarations a gathered scope reads back alike. -/
theorem materialize_scope {t t' : Tree} {doc : NodeId} {tag : TagName} {σ σE : Scope}
    {attrs : List (String × Spec)} {args : List Spec} {policy : Policy} {el : NodeId}
    (hwf : t.WellFormed) (hσ : σ.NoXmlnsBinding) (hd : DeclaresGatherable attrs args)
    (h : materialize doc tag σ attrs args policy t = .ok (el, σE) t') :
    Materialized t t' σ σE el := by
  unfold materialize at h
  obtain ⟨⟨qn, pfx⟩, t₁, hcheck, hrest⟩ := BuildM.bind_eq_ok h
  obtain ⟨hresolve, h₁⟩ := BuildM.check_eq_ok hcheck
  rw [h₁] at hrest
  dsimp only at hrest
  obtain ⟨q, hq, hpfx⟩ := TagName.resolve_eq_ok hresolve
  set σ' := (σ.declare attrs args).1 with hσ'
  have hkeys : ∀ e ∈ [] ++ Name.sortEntries attrs, ∀ p, Name.declares? e.1 = some p → p ≠ "xmlns" := by
    intro e he p hp
    rw [List.nil_append, Name.mem_sortEntries] at he
    exact (hd e he p hp).1
  -- once `e₀` is made at the end of the arena, its attributes are set
  have hfinish : ∀ (e₀ : Element) (t₂ : Tree), e₀.attrs = [] →
      (∀ u, e₀.ns = some u → σ'.namespaceOf? (e₀.prefixName.getD "") = some u) →
      t₂ = (t.alloc (.element e₀) (some doc)).1 →
      ((Name.sortEntries attrs).forM (setAttrEntry t.size σ' args policy) >>=
        fun _ => pure (t.size, σ')) t₂ = .ok (el, σE) t' →
      Materialized t t' σ σE el := by
    intro e₀ t₂ he₀ hns ht₂ hloop
    obtain ⟨u, t₃, hset, hret⟩ := BuildM.bind_eq_ok hloop
    simp only [pure, EStateM.pure, EStateM.Result.ok.injEq, Prod.mk.injEq] at hret
    obtain ⟨⟨rfl, rfl⟩, rfl⟩ := hret
    have hwf₂ : t₂.WellFormed := by
      rw [ht₂]
      exact hwf.alloc _ _ fun e he => by cases he; simp [he₀]
    have hel₂ : t₂.element? t.size = some { e₀ with attrs := [] } := by
      rw [ht₂, Tree.element?_alloc, if_pos rfl, ← he₀]
    have h₀ : Agreeing t₂ t.size e₀ σ' args [] t₂ :=
      ⟨hwf₂, rfl, fun _ _ => rfl, [], hel₂, ⟨by simp, by simp, by simp, by simp [Scope.lastValue]⟩⟩
    obtain ⟨hwf', hsize, hother, A, hel, hA⟩ :=
      Agreeing.triple_forM (hd.noXmlnsBinding hσ) policy _ hkeys t₂ u t₃ h₀ hset
    have hsize₂ : t₂.size = t.size + 1 := by rw [ht₂, Tree.size_alloc]
    refine ⟨rfl, hsize.trans hsize₂, hwf', fun m hm => ?_,
      ⟨_, hel, namespaceOf?_of_recordsAgree (e := { e₀ with attrs := A }) hd hns
        (by simpa using hA)⟩, hd.noXmlnsBinding hσ⟩
    rw [hother m (Nat.ne_of_lt hm), ht₂, Tree.get_alloc_of_lt _ _ hm]
  cases hns : σ'.namespaceOf? pfx with
  | some uri =>
    rw [hns] at hrest
    obtain ⟨el', t₂, hmake, hloop⟩ := BuildM.bind_eq_ok hrest
    have hcreate := BuildM.make_eq_ok hmake
    simp only [Tree.createElementNs, hq, Except.ok.injEq] at hcreate
    obtain rfl : el' = t.size := by rw [← Tree.alloc_snd, hcreate]
    have hne : uri.isEmpty = false := by simpa using Scope.namespaceOf?_ne_empty hns
    refine hfinish ⟨q.prefixName, q.localName, some uri, []⟩ t₂ rfl (fun u hu => ?_) ?_ hloop
    · cases hu
      rw [hpfx]
      exact hns
    · simpa [hne] using (congrArg Prod.fst hcreate).symm
  | none =>
    rw [hns] at hrest
    by_cases hc : (!pfx.isEmpty && policy == .strict) = true
    · simp only [hc, if_true] at hrest
      obtain ⟨_, _, hthrow, -⟩ := BuildM.bind_eq_ok hrest
      cases hthrow
    · simp only [hc, Bool.false_eq_true, if_false] at hrest
      obtain ⟨el', t₂, hmake, hloop⟩ := BuildM.bind_eq_ok hrest
      have hcreate := BuildM.make_eq_ok hmake
      simp only [Tree.createElement, Name.isQName, hq, Option.isSome_some, if_true,
        Except.ok.injEq] at hcreate
      obtain rfl : el' = t.size := by rw [← Tree.alloc_snd, hcreate]
      exact hfinish ⟨none, qn, none, []⟩ t₂ rfl (fun u hu => by cases hu)
        (congrArg Prod.fst hcreate).symm hloop

end Markup
