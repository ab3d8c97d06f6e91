import Markup.Proofs.Build.Denotation
import Markup.Proofs.Spec.Unfold

/-!
# More nested calls change no build that ends

A build and a denotation nest calls at most `fuel` deep, and a call past that builds nothing. When
every chain of calls from the spec ends within the calls allowed, more calls change nothing: the
build is the one `run` makes with `callDepth` (`buildSpec_eq_callDepth`), and so is the
denotation (`denoteSpec_eq_callDepth`). The inductions follow the interpreter and the
denotation; only a call reads the fuel, and there both sides have a call left.
-/

namespace Markup

open Spec

section
variable {policy : Policy} {args : List Spec}

/-- A build allowed two numbers of nested calls, each enough for its chains of calls to end, is
one build. -/
theorem buildSpec_eq_of_callsWithin {fuel m : Nat} (pos : Position) (σ : Scope) {s : Spec}
    (hs : s.CallsWithin args fuel) (hm : s.CallsWithin args m) :
    buildSpec policy args fuel pos σ s = buildSpec policy args m pos σ s := by
  refine buildSpec.induct policy args
    (fun fuel pos σ s => ∀ m, s.CallsWithin args fuel → s.CallsWithin args m →
      buildSpec policy args fuel pos σ s = buildSpec policy args m pos σ s)
    (fun fuel pos σ es => ∀ m, (Spec.mapping es).CallsWithin args fuel →
      (Spec.mapping es).CallsWithin args m →
        buildObject policy args fuel pos σ es = buildObject policy args m pos σ es)
    (fun fuel pos σ xs => ∀ m, (Spec.list xs).CallsWithin args fuel →
      (Spec.list xs).CallsWithin args m →
        buildList policy args fuel pos σ xs = buildList policy args m pos σ xs)
    (fun fuel pos σ xs => ∀ m, (Spec.list xs).CallsWithin args fuel →
      (Spec.list xs).CallsWithin args m →
        buildItems policy args fuel pos σ xs = buildItems policy args m pos σ xs)
    ?null ?list ?stop ?call ?node ?empty ?object ?bool ?number ?string ?failed ?declaration
    ?shorthand ?unparsed ?unmarked ?reserved ?bare ?element ?named ?nil ?single ?batch ?none
    ?some fuel pos σ s m hs hm
  case list =>
    intro fuel pos σ items ih m hs hm
    simp only [buildSpec]
    exact ih m hs hm
  case stop =>
    intro pos σ body m hs _
    exact absurd hs CallsWithin.not_callable_zero
  case call =>
    intro pos σ body fuel ih m hs hm
    -- a call past the first allowance is a call past the second too
    rw [CallsWithin.callable_succ_iff] at hs
    obtain ⟨m', rfl, hm'⟩ := CallsWithin.callable_iff.1 hm
    simp only [buildSpec]
    exact ih m' hs hm'
  case object =>
    intro fuel pos σ e es ih m hs hm
    simp only [buildSpec]
    exact ih m hs hm
  case failed =>
    intro fuel pos σ entries e hfind m _ _
    rw [buildObject_of_error hfind, buildObject_of_error hfind]
  case declaration =>
    intro fuel pos σ key value q hq hdecl hfind _ _ m _ _
    have hmissing : ∀ q', QName.parse? key = some q' → q'.isDeclaration = true := by
      intro q' hq'
      rw [hq, Option.some.injEq] at hq'
      exact hq' ▸ hdecl
    rw [buildObject_of_missing hfind hmissing, buildObject_of_missing hfind hmissing]
  case shorthand =>
    intro fuel pos σ key value q hq hdecl hfind _ ih m hs hm
    have hdecl' : q.isDeclaration = false := Bool.eq_false_iff.2 hdecl
    have hval := (CallsWithin.mapping_cons_iff.1 hs).1.children
    have hval' := (CallsWithin.mapping_cons_iff.1 hm).1.children
    rw [buildObject_of_shorthand hfind hq hdecl', buildObject_of_shorthand hfind hq hdecl']
    refine bind_congr fun r => ?_
    cases hc : value.children with
    | nil => rfl
    | cons c cs =>
      rw [hc] at hval hval'
      exact ih r.1 r.2.2 c cs hc m hval hval'
  case unparsed =>
    intro fuel pos σ key value hq hfind _ m _ _
    have hmissing : ∀ q', QName.parse? key = some q' → q'.isDeclaration = true := by
      intro q' hq'
      rw [hq] at hq'
      cases hq'
    rw [buildObject_of_missing hfind hmissing, buildObject_of_missing hfind hmissing]
  case unmarked =>
    intro fuel pos σ entries hfind hne m _ _
    rw [buildObject_of_unmarked hfind (fun k v he => hne k v he),
      buildObject_of_unmarked hfind (fun k v he => hne k v he)]
  case reserved =>
    intro fuel pos σ entries key value kind hfind _ m _ _
    rw [buildObject_of_reserved hfind, buildObject_of_reserved hfind]
  case bare =>
    intro fuel pos σ entries key value hc hfind _ m _ _
    rw [buildObject_of_bare hfind hc, buildObject_of_bare hfind hc]
  case element =>
    intro fuel pos σ entries key value c cs hc hfind hmem ih m hs hm
    have hrest := ((hs.of_mem_entries hmem).of_children_eq_cons hc).2
    have hrest' := ((hm.of_mem_entries hmem).of_children_eq_cons hc).2
    rw [buildObject_of_element hfind hc, buildObject_of_element hfind hc]
    refine bind_congr fun tag => bind_congr fun r => ?_
    cases cs with
    | nil => rfl
    | cons d ds => exact ih r.1 r.2.2 d ds rfl m hrest hrest'
  case named =>
    intro fuel pos σ entries key value name hfind hmem ih m hs hm
    have hval := (hs.of_mem_entries hmem).children
    have hval' := (hm.of_mem_entries hmem).children
    rw [buildObject_of_named hfind, buildObject_of_named hfind]
    refine bind_congr fun r => ?_
    cases hc : value.children with
    | nil => rfl
    | cons c cs =>
      rw [hc] at hval hval'
      exact ih r.1 r.2.2 c cs hc m hval hval'
  case single =>
    intro fuel pos σ x ih m hs hm
    simp only [buildList]
    exact ih m (CallsWithin.list_cons_iff.1 hs).1 (CallsWithin.list_cons_iff.1 hm).1
  case batch =>
    intro fuel pos σ x y rest ihx ihrest m hs hm
    obtain ⟨hx, hrest⟩ := CallsWithin.list_cons_iff.1 hs
    obtain ⟨hx', hrest'⟩ := CallsWithin.list_cons_iff.1 hm
    simp only [buildList]
    refine bind_congr fun frag => ?_
    rw [ihx frag m hx hx', ihrest frag m hrest hrest']
  case some =>
    intro fuel pos σ x rest ihx ihrest m hs hm
    obtain ⟨hx, hrest⟩ := CallsWithin.list_cons_iff.1 hs
    obtain ⟨hx', hrest'⟩ := CallsWithin.list_cons_iff.1 hm
    simp only [buildItems]
    rw [ihx m hx hx', ihrest m hrest hrest']
  all_goals
    intros
    simp only [buildSpec, buildList, buildItems]

/-- A build whose chains of calls end within the calls it is allowed is the build `run` makes,
which allows `callDepth` nested calls: more calls change nothing. -/
theorem buildSpec_eq_callDepth {fuel : Nat} (pos : Position) (σ : Scope) {s : Spec}
    (hs : s.CallsWithin args fuel) :
    buildSpec policy args fuel pos σ s = buildSpec policy args (s.callDepth args) pos σ s :=
  buildSpec_eq_of_callsWithin pos σ hs hs.settles.callsWithin_callDepth

end

/-! ## The denotation -/

section
variable {policy : Policy} {args : List Spec} {T : Tree}

/-- The child specs of an object reach only callables the object reaches. -/
theorem Spec.CallsWithin.of_objectHead {d : Nat} {entries : List (String × Spec)} {tag : TagName}
    {attrs : List (String × Spec)} {children : List Spec}
    (h : objectHead entries args = .ok (.element tag attrs children))
    (hs : (Spec.mapping entries).CallsWithin args d) : (Spec.list children).CallsWithin args d := by
  unfold objectHead at h
  split at h
  · cases h
  · -- the shorthand: the only entry's value holds the children
    split at h
    · split at h
      · split at h
        · cases h
        · cases h
          exact (hs.of_mem_entries (List.mem_singleton_self _)).children
      · cases h
    · cases h
  · rename_i key d value hfind
    have hmem : (key, value) ∈ entries := (mem_of_findDesignator hfind).resolve_left (by simp)
    split at h
    · cases hr : reservedContent _ _ _ _ <;> rw [hr] at h <;> cases h
    · split at h
      · cases h
      · rename_i first rest hc
        cases ht : tagOf first args <;> rw [ht] at h <;> cases h
        exact ((hs.of_mem_entries hmem).of_children_eq_cons hc).2
    · cases h
      exact (hs.of_mem_entries hmem).children

/-- A denotation allowed two numbers of nested calls, each enough for its chains of calls to
end, is one denotation. -/
theorem denoteSpec_eq_of_callsWithin {fuel m : Nat} (scope : Scope) {s : Spec}
    (hs : s.CallsWithin args fuel) (hm : s.CallsWithin args m) :
    denoteSpec policy args T fuel scope s = denoteSpec policy args T m scope s := by
  refine denoteSpec.induct args
    (fun fuel scope s => ∀ m, s.CallsWithin args fuel → s.CallsWithin args m →
      denoteSpec policy args T fuel scope s = denoteSpec policy args T m scope s)
    (fun fuel scope es => ∀ m, (Spec.mapping es).CallsWithin args fuel →
      (Spec.mapping es).CallsWithin args m →
        denoteObject policy args T fuel scope es = denoteObject policy args T m scope es)
    (fun fuel scope xs => ∀ m, (Spec.list xs).CallsWithin args fuel →
      (Spec.list xs).CallsWithin args m →
        denoteList policy args T fuel scope xs = denoteList policy args T m scope xs)
    ?null ?list ?stop ?call ?node ?empty ?object ?bool ?number ?string ?error ?leaf ?element
    ?nil ?cons fuel scope s m hs hm
  case list =>
    intro fuel scope items ih m hs hm
    rw [denoteSpec, denoteSpec]
    exact ih m hs hm
  case stop =>
    intro scope body m hs _
    exact absurd hs CallsWithin.not_callable_zero
  case call =>
    intro scope body fuel ih m hs hm
    rw [CallsWithin.callable_succ_iff] at hs
    obtain ⟨m', rfl, hm'⟩ := CallsWithin.callable_iff.1 hm
    rw [denoteSpec, denoteSpec]
    exact ih m' hs hm'
  case object =>
    intro fuel scope e es ih m hs hm
    rw [denoteSpec, denoteSpec]
    exact ih m hs hm
  case error =>
    intro fuel scope entries e h m _ _
    rw [denoteObject_of_error h, denoteObject_of_error h]
  case leaf =>
    intro fuel scope entries c h m _ _
    rw [denoteObject_of_leaf h, denoteObject_of_leaf h]
  case element =>
    intro fuel scope entries tag attrs children h _ ih m hs hm
    rw [denoteObject_of_element h, denoteObject_of_element h]
    refine bind_congr fun b => ?_
    rw [ih b.2 m (hs.of_objectHead h) (hm.of_objectHead h)]
  case nil =>
    intro fuel scope m _ _
    rw [denoteList_nil, denoteList_nil]
  case cons =>
    intro fuel scope x rest ihx ihrest m hs hm
    obtain ⟨hx, hrest⟩ := CallsWithin.list_cons_iff.1 hs
    obtain ⟨hx', hrest'⟩ := CallsWithin.list_cons_iff.1 hm
    rw [denoteList_cons, denoteList_cons, ihx m hx hx', ihrest m hrest hrest']
  all_goals
    intros
    rw [denoteSpec, denoteSpec]

/-- What a spec whose chains of calls end within the calls allowed denotes is what it denotes
with `callDepth` nested calls allowed. -/
theorem denoteSpec_eq_callDepth {fuel : Nat} (scope : Scope) {s : Spec}
    (hs : s.CallsWithin args fuel) :
    denoteSpec policy args T fuel scope s = denoteSpec policy args T (s.callDepth args) scope s :=
  denoteSpec_eq_of_callsWithin scope hs hs.settles.callsWithin_callDepth

end

end Markup
