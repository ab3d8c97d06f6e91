import Markup.Name.Basic

/-!
# Reading qualified names back

No name character is a colon, so a text splits at its first colon in one way only:
`QName.parse?` accepts exactly the written forms `p:l` and `l` of `NCName`s `p` and `l`, and
reads the parts back. The key of a namespace declaration is a qualified name too, and the
prefix it declares is read off the parsed name.
-/

namespace Markup.Name

variable {l p r cs : List Char}

theorem colon_not_mem_of_isNCNameChars (h : isNCNameChars l = true) : ':' ∉ l := by
  cases l with
  | nil => simp [isNCNameChars] at h
  | cons c cs =>
    simp only [isNCNameChars, Bool.and_eq_true, List.all_eq_true] at h
    rintro (_ | ⟨_, hc⟩)
    · exact absurd (isNameChar_of_isStartChar h.1) (by simp [isNameChar_colon])
    · exact absurd (h.2 _ hc) (by simp [isNameChar_colon])

theorem splitColon_of_colon_not_mem (h : ':' ∉ l) : splitColon l = (l, none) := by
  induction l with
  | nil => rfl
  | cons c cs ih =>
    simp only [List.mem_cons, not_or] at h
    simp [splitColon, Ne.symm h.1, ih h.2]

theorem splitColon_append (h : ':' ∉ p) (r : List Char) :
    splitColon (p ++ ':' :: r) = (p, some r) := by
  induction p with
  | nil => simp [splitColon]
  | cons c cs ih =>
    simp only [List.mem_cons, not_or] at h
    simp [splitColon, Ne.symm h.1, ih h.2]

theorem eq_of_splitColon_eq_none (h : splitColon cs = (l, none)) : cs = l := by
  induction cs generalizing l with
  | nil => simp_all [splitColon]
  | cons c cs ih =>
    unfold splitColon at h
    split at h
    · cases h
    · simp only [Prod.mk.injEq] at h
      obtain ⟨rfl, h⟩ := h
      exact congrArg (c :: ·) (ih (Prod.ext rfl h))

theorem eq_of_splitColon_eq_some (h : splitColon cs = (p, some r)) : cs = p ++ ':' :: r := by
  induction cs generalizing p with
  | nil => simp [splitColon] at h
  | cons c cs ih =>
    unfold splitColon at h
    split at h
    · next hc =>
      obtain ⟨rfl, h⟩ := Prod.mk.inj h
      simp_all
    · simp only [Prod.mk.injEq] at h
      obtain ⟨rfl, h⟩ := h
      rw [List.cons_append]
      exact congrArg (c :: ·) (ih (Prod.ext rfl h))

/-- Only `xmlns` and `xmlns:p`, for an `NCName` `p`, declare a prefix. -/
theorem eq_of_declares? {k d : String} (h : declares? k = some d) :
    k.toList = ['x', 'm', 'l', 'n', 's'] ∧ d = "" ∨
      k.toList = ['x', 'm', 'l', 'n', 's', ':'] ++ d.toList ∧ isNCNameChars d.toList = true := by
  unfold declares? at h
  split at h
  · next hk => simp_all
  · next p hk =>
    split at h
    · next hp =>
      simp only [Option.some.injEq] at h
      subst h
      simp [hk, hp]
    · cases h
  · cases h

end Markup.Name

namespace Markup.QName

theorem parse?_eq_some_iff {s : String} {q : QName} :
    parse? s = some q ↔
      (q.prefixName.all Name.isNCName && Name.isNCName q.localName) = true ∧ q.toString = s := by
  obtain ⟨pre, loc⟩ := q
  constructor
  · intro h
    unfold parse? at h
    split at h
    · next l hs =>
      split at h
      · next hl =>
        simp only [Option.some.injEq, QName.mk.injEq] at h
        obtain ⟨rfl, rfl⟩ := h
        have hl' := Name.eq_of_splitColon_eq_none hs
        refine ⟨by simp [Name.isNCName, hl], ?_⟩
        simp [QName.toString, ← hl']
      · cases h
    · next l r hs =>
      split at h
      · next hl =>
        simp only [Option.some.injEq, QName.mk.injEq] at h
        obtain ⟨rfl, rfl⟩ := h
        simp only [Bool.and_eq_true] at hl
        refine ⟨by simp [Name.isNCName, hl], String.toList_inj.1 ?_⟩
        simp [QName.toString, Name.eq_of_splitColon_eq_some hs]
      · cases h
  · rintro ⟨hv, rfl⟩
    cases pre with
    | none =>
      simp only [Option.all_none, Bool.true_and, Name.isNCName] at hv
      simp [parse?, QName.toString, Name.splitColon_of_colon_not_mem
        (Name.colon_not_mem_of_isNCNameChars hv), hv]
    | some p =>
      simp only [Option.all_some, Bool.and_eq_true, Name.isNCName] at hv
      simp [parse?, QName.toString, Name.splitColon_append
        (Name.colon_not_mem_of_isNCNameChars hv.1), hv]

/-- The prefix that a qualified name declares when it is a namespace declaration key. -/
theorem declares?_of_parse? {k : String} {q : QName} (h : parse? k = some q) :
    Name.declares? k =
      if q.isDeclaration then some (if q.prefixName = none then "" else q.localName) else none := by
  obtain ⟨hv, rfl⟩ := parse?_eq_some_iff.1 h
  obtain ⟨pre, loc⟩ := q
  have hxmlns : "xmlns".toList = ['x', 'm', 'l', 'n', 's'] := by decide
  cases pre with
  | none =>
    simp only [Option.all_none, Bool.true_and, Name.isNCName] at hv
    simp only [isDeclaration, QName.toString, if_true, beq_iff_eq]
    by_cases hx : loc = "xmlns"
    · subst hx
      rfl
    · rw [if_neg hx]
      cases hd : Name.declares? loc with
      | none => rfl
      | some d =>
        rcases Name.eq_of_declares? hd with ⟨hk, -⟩ | ⟨hk, -⟩
        · exact absurd (String.toList_inj.1 (hk.trans hxmlns.symm)) hx
        · exact absurd (hk ▸ by simp) (Name.colon_not_mem_of_isNCNameChars hv)
  | some p =>
    simp only [Option.all_some, Bool.and_eq_true, Name.isNCName] at hv
    have hk : (p ++ ":" ++ loc).toList = p.toList ++ ':' :: loc.toList := by simp
    simp only [isDeclaration, QName.toString, beq_iff_eq, reduceCtorEq, if_false]
    by_cases hx : p = "xmlns"
    · subst hx
      simp [Name.declares?, hv.2]
    · rw [if_neg hx]
      cases hd : Name.declares? (p ++ ":" ++ loc) with
      | none => rfl
      | some d =>
        rcases Name.eq_of_declares? hd with ⟨hk', -⟩ | ⟨hk', -⟩
        · rw [hk] at hk'
          exact absurd (hk' ▸ List.mem_append_right _ (List.mem_cons_self ..)) (by decide)
        · rw [hk] at hk'
          have := Name.splitColon_append (Name.colon_not_mem_of_isNCNameChars hv.1) loc.toList
          rw [hk', show ['x', 'm', 'l', 'n', 's', ':'] ++ d.toList =
            ['x', 'm', 'l', 'n', 's'] ++ ':' :: d.toList from rfl,
            Name.splitColon_append (by decide)] at this
          exact absurd (String.toList_inj.1 ((Prod.mk.inj this).1.symm.trans hxmlns.symm)) hx

end Markup.QName
