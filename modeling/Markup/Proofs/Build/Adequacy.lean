import Markup.Proofs.Build.Refinement

/-!
# A build does what its spec denotes

The interpreter agrees with the denotation: a build of a spec into an element or a fragment puts
in place new nodes of the shapes `denoteSpec` gives, and fails exactly when that is an error, with
that error (`refines_buildSpec`, by one induction along the interpreter's recursion). For a
build at a target, the container is the target in `parent` mode and the reference's parent
otherwise, and the scope is gathered there (`build_puts_denotation`).

This holds when every node handle the build can reach names a node that is not the container or
above it, and, when the build replaces its reference, no empty fragment: a copy of an empty
fragment puts nothing in place, yet attaching it still takes the reference out.
-/

namespace Markup

open Relation Markup.Tree BuildM

/-- A build of `s` at `pos`, into an element or a fragment `H` of a well-formed tree, refines what
`s` denotes, node handles read in `T`: it fails exactly when the denotation is an error, with that
error, and else puts in place new nodes of the shapes it gives. This holds when every node handle
it can reach is copied from `t` as it was in `T` (`Position.Copies`). -/
theorem refines_buildSpec (policy : Policy) (args : List Spec) (T : Tree) (fuel : Nat)
    (pos : Position) (scope : Scope) (s : Spec) :
    ∀ t H, t.WellFormed → pos.Into t H → s.Handles args (pos.Copies T t H) →
      Refines (buildSpec policy args fuel pos scope s) t (denoteSpec policy args T fuel scope s)
        (fun _ L t' => pos.Puts t t' L) := by
  refine buildSpec.induct policy args
    (fun fuel pos scope s => ∀ t H, t.WellFormed → pos.Into t H →
      s.Handles args (pos.Copies T t H) →
      Refines (buildSpec policy args fuel pos scope s) t (denoteSpec policy args T fuel scope s)
        (fun _ L t' => pos.Puts t t' L))
    (fun fuel pos scope entries => ∀ t H, t.WellFormed → pos.Into t H →
      (Spec.mapping entries).Handles args (pos.Copies T t H) →
      Refines (buildObject policy args fuel pos scope entries) t
        (denoteObject policy args T fuel scope entries) (fun _ L t' => pos.Puts t t' L))
    (fun fuel pos scope items => ∀ t H, t.WellFormed → pos.Into t H →
      (Spec.list items).Handles args (pos.Copies T t H) →
      Refines (buildList policy args fuel pos scope items) t
        (denoteList policy args T fuel scope items) (fun _ L t' => pos.Puts t t' L))
    (fun fuel pos scope items => ∀ t H, t.WellFormed → pos.Into t H → pos.mode = .parent →
      (Spec.list items).Handles args (pos.Copies T t H) →
      Refines (buildItems policy args fuel pos scope items) t
        (denoteList policy args T fuel scope items) (fun _ L t' => pos.Puts t t' L))
    ?null ?list ?stop ?call ?node ?empty ?object ?bool ?number ?string ?failed ?declaration
    ?shorthand ?unparsed ?unmarked ?reserved ?bare ?element ?named ?nil ?single ?batch ?none
    ?some fuel pos scope s
  case null =>
    intro fuel pos scope t H ht _ _
    rw [buildSpec, denoteSpec]
    exact refines_pure _ [] (.nothing (.refl ht))
  case list =>
    intro fuel pos scope items ih t H ht hin hh
    rw [buildSpec, denoteSpec]
    exact ih t H ht hin hh
  case stop =>
    intro pos scope body t H ht _ _
    rw [buildSpec, denoteSpec]
    exact refines_pure _ [] (.nothing (.refl ht))
  case call =>
    intro pos scope body fuel ih t H ht hin hh
    rw [buildSpec, denoteSpec]
    exact ih t H ht hin (hh.step (.call body))
  case node =>
    intro fuel pos scope n t H ht hin hh
    rw [buildSpec, denoteSpec]
    exact (hin.refines_clone ht hh.node.filled).congr hh.node.copied
  case empty =>
    intro fuel pos scope t H ht hin _
    rw [buildSpec, denoteSpec]
    exact hin.refines_buildText ht ""
  case object =>
    intro fuel pos scope e es ih t H ht hin hh
    rw [buildSpec, denoteSpec]
    exact ih t H ht hin hh
  case bool =>
    intro fuel pos scope b t H ht hin _
    rw [buildSpec, denoteSpec]
    exact hin.refines_buildText ht _
  case number =>
    intro fuel pos scope n t H ht hin _
    rw [buildSpec, denoteSpec]
    exact hin.refines_buildText ht _
  case string =>
    intro fuel pos scope str t H ht hin _
    rw [buildSpec, denoteSpec]
    exact hin.refines_buildText ht _
  case failed =>
    intro fuel pos scope entries e hfind t H _ _ _
    have hhead : objectHead entries args = .error e := by simp [objectHead, hfind]
    rw [buildObject_of_error hfind, denoteObject_of_error hhead]
    exact refines_throw e
  case declaration =>
    intro fuel pos scope key value q hq hdecl hfind _ _ t H _ _ _
    have hhead : objectHead [(key, value)] args = .error (.missingDesignator [key]) := by
      simp [objectHead, hfind, hq, hdecl]
    rw [buildObject_of_missing hfind fun q' hq' => (by rw [hq, Option.some.injEq] at hq'; rwa [← hq']),
      denoteObject_of_error hhead]
    exact refines_throw _
  case shorthand =>
    intro fuel pos scope key value q hq hdecl hfind hmem ih t H ht hin hh
    have hhead : objectHead [(key, value)] args =
        .ok (.element (.qualified key) [] value.children) := by
      simp [objectHead, hfind, hq, hdecl]
    rw [buildObject_of_shorthand hfind hq (Bool.eq_false_iff.2 hdecl), denoteObject_of_element hhead]
    exact hin.refines_element ht (hh.children hmem fun _ hx => hx)
      fun el inner c cs hc t₁ ht₁ hin₁ hh₁ => ih el inner c cs hc t₁ el ht₁ hin₁ hh₁
  case unparsed =>
    intro fuel pos scope key value hq hfind _ t H _ _ _
    have hhead : objectHead [(key, value)] args = .error (.missingDesignator [key]) := by
      simp [objectHead, hfind, hq]
    rw [buildObject_of_missing hfind fun q' hq' => (by rw [hq] at hq'; cases hq'),
      denoteObject_of_error hhead]
    exact refines_throw _
  case unmarked =>
    intro fuel pos scope entries hfind hne t H _ _ _
    have hhead : objectHead entries args = .error (.missingDesignator (entries.map (·.1))) := by
      simp only [objectHead, hfind]
    rw [buildObject_of_unmarked hfind hne, denoteObject_of_error hhead]
    exact refines_throw _
  case reserved =>
    intro fuel pos scope entries key value kind hfind _ t H ht hin _
    have hd : denoteObject policy args T fuel scope entries =
        (reservedContent kind value.children (attributeEntries entries) args >>= fun c =>
          pure [.node c []]) := by
      cases hr : reservedContent kind value.children (attributeEntries entries) args with
      | error e =>
        exact denoteObject_of_error (show objectHead entries args = .error e by
          simp [objectHead, hfind, hr, Except.map])
      | ok c =>
        exact denoteObject_of_leaf (show objectHead entries args = .ok (.leaf c) by
          simp [objectHead, hfind, hr, Except.map])
    rw [buildObject_of_reserved hfind, hd]
    exact hin.refines_buildReserved ht kind _ _ args
  case bare =>
    intro fuel pos scope entries key value hchildren hfind _ t H _ _ _
    have hhead : objectHead entries args = .error .missingTagName := by
      simp [objectHead, hfind, hchildren]
    rw [buildObject_of_bare hfind hchildren, denoteObject_of_error hhead]
    exact refines_throw _
  case element =>
    intro fuel pos scope entries key value c cs hchildren hfind hmem ih t H ht hin hh
    rw [buildObject_of_element hfind hchildren]
    -- the tag name is read off the first child before anything is made
    cases htag : tagOf c args with
    | error e =>
      have hhead : objectHead entries args = .error e := by
        simp [objectHead, hfind, hchildren, htag, Except.map]
      rw [denoteObject_of_error hhead]
      exact refines_of_eq_error (BuildM.bind_apply_of_eq_error rfl)
    | ok tag =>
      have hhead : objectHead entries args = .ok (.element tag (attributeEntries entries) cs) := by
        simp [objectHead, hfind, hchildren, htag, Except.map]
      rw [denoteObject_of_element hhead]
      refine Refines.of_eq (bind_apply_of_eq_ok rfl) ?_
      exact hin.refines_element ht (hh.children hmem fun x hx => by
        rw [hchildren]
        exact List.mem_cons_of_mem _ hx)
        fun el inner c' cs' hc t₁ ht₁ hin₁ hh₁ => ih el inner c' cs' hc t₁ el ht₁ hin₁ hh₁
  case named =>
    intro fuel pos scope entries key value name hfind hmem ih t H ht hin hh
    have hhead : objectHead entries args =
        .ok (.element (.qualified name) (attributeEntries entries) value.children) := by
      simp [objectHead, hfind]
    rw [buildObject_of_named hfind, denoteObject_of_element hhead]
    exact hin.refines_element ht (hh.children hmem fun _ hx => hx)
      fun el inner c cs hc t₁ ht₁ hin₁ hh₁ => ih el inner c cs hc t₁ el ht₁ hin₁ hh₁
  case nil =>
    intro fuel pos scope t H ht _ _
    rw [buildList, denoteList_nil]
    exact refines_pure _ [] (.nothing (.refl ht))
  case single =>
    intro fuel pos scope x ih t H ht hin hh
    rw [buildList, denoteList_singleton]
    exact ih t H ht hin (hh.step (.item (List.mem_singleton_self x)))
  case batch =>
    intro fuel pos scope x y rest ihx ihrest t H ht hin hh
    rw [buildList, denoteList_cons]
    exact hin.refines_batch ht _ _ hh (fun t₁ ht₁ hin₁ hh₁ => ihx t.size t₁ t.size ht₁ hin₁ hh₁)
      fun t₁ ht₁ hin₁ hh₁ => ihrest t.size t₁ t.size ht₁ hin₁ rfl hh₁
  case none =>
    intro fuel pos scope t H ht _ _ _
    rw [buildItems, denoteList_nil]
    exact refines_pure _ [] (.nothing (.refl ht))
  case some =>
    intro fuel pos scope x rest ihx ihrest t H ht hin hm hh
    rw [buildItems, denoteList_cons]
    refine (ihx t H ht hin (hh.step (.item (List.mem_cons_self ..)))).bind fun _ a t₁ h₁ => ?_
    obtain ⟨o₁, hl₁⟩ := h₁.exists_leaves
    exact (ihrest t₁ H hl₁.wf (hin.of_append hm hl₁) hm
      ((hh.sublist fun y hy => List.mem_cons_of_mem _ hy).mono fun n hc =>
        hc.of_leaves hl₁ ht hin)).map fun _ b t₂ h₂ => h₁.append hm hin.reference_lt h₂

/-- A build at a target without a pseudo anchor, on a reachable tree, into an element or a
fragment `C`: the target in `parent` mode, and the reference's parent otherwise. When every node
handle the build can reach is a node of the tree (`build_copies_node_it_made` shows why) that is
not `C` or above it, and, if the build replaces its reference, no empty fragment, the build fails exactly when what the spec denotes in the scope
gathered at `C` is an error, with that error, and otherwise puts in place new nodes of those
shapes, every old node keeping its content and, but for `C` and a replaced reference, its links. -/
theorem build_puts_denotation {target : Target} {spec : Spec} {args : List Spec}
    {policy : Policy} {t t₁ : Tree} {req : Request} {C : NodeId} (hreach : t.Reachable)
    (hw : target.Within t) (hp : target.pseudo = none)
    (hn : normalize target spec args t = .ok req t₁) (hC : req.position.Into t₁ C)
    (hh : req.spec.Handles req.args fun n => n < t₁.size ∧ ¬ ReflTransGen t₁.ParentOf n C ∧
      (req.mode = .replace → t₁.nodeType n = .fragment → t₁.children n ≠ [])) :
    Refines (build target spec args policy) t
      (denoteSpec policy req.args t₁ (req.spec.callDepth req.args) (Scope.gather t₁ C) req.spec)
      (fun _ L t' => req.position.Puts t₁ t' L) := by
  have ht₁ : t₁.WellFormed := ((ends_normalize hreach.wellFormed hw spec args).ok hn).1.wf
  -- without a pseudo anchor, the scope is gathered where the build inserts
  have hanchor : req.anchor = C := ((ends_normalize_anchor hp spec args).ok hn).unique hC.hostIn
  refine Refines.of_eq (build_apply_of_normalize hn) ?_
  rw [hanchor]
  exact refines_buildSpec policy req.args t₁ _ req.position _ req.spec t₁ C ht₁ hC
    (hh.mono fun n h => ⟨h.1, h.2.1, rfl, h.2.2⟩)

/-- A copy of the element `item` built into the element `root`, neither of them attached. -/
theorem build_puts_copy_into_root :
    let T := (Op.createElement 0 "item").apply
      ((Op.createElement 0 "root").apply (Op.createDocument.apply Tree.empty))
    let req : Request := ⟨.parent, 1, 1, 0, .node 2, []⟩
    T.Reachable ∧ (Target.node 1).Within T ∧ (Target.node 1).pseudo = none ∧
      normalize (.node 1) (.node 2) [] T = .ok req T ∧ req.position.Into T 1 ∧
      req.spec.Handles req.args (fun n => n < T.size ∧ ¬ ReflTransGen T.ParentOf n 1 ∧
        (req.mode = .replace → T.nodeType n = .fragment → T.children n ≠ [])) ∧
      Refines (build (.node 1) (.node 2) [] .strict) T
        (denoteSpec .strict [] T ((Spec.node 2).callDepth []) (Scope.gather T 1) (.node 2))
        (fun _ L t' => req.position.Puts T t' L) := by
  intro T req
  have hreach : T.Reachable := .step _ (.step _ (.step _ .empty trivial) trivial) trivial
  have hw : (Target.node 1).Within T := by decide
  have hn : normalize (.node 1) (.node 2) [] T = .ok req T := rfl
  have hC : req.position.Into T 1 := ⟨rfl, .inl rfl⟩
  have hroot : T.parent 1 = none := rfl
  have hh : req.spec.Handles req.args (fun n => n < T.size ∧ ¬ ReflTransGen T.ParentOf n 1 ∧
      (req.mode = .replace → T.nodeType n = .fragment → T.children n ≠ [])) := by
    refine Spec.Handles.of_node ⟨by decide, fun ha => ?_, fun h => absurd h (by decide)⟩
    rcases ha.cases_tail with h | ⟨p, -, hp⟩
    · exact absurd h (by decide)
    · have hp : T.parent 1 = some p := hp
      rw [hroot] at hp
      cases hp
  exact ⟨hreach, hw, rfl, hn, hC, hh, build_puts_denotation hreach hw rfl hn hC hh⟩

/-- A handle may name a node the build itself makes: the element `a` is copied into itself,
though the tree the build starts from has no node `2`, so what the spec denotes there is an
error. This is why the handles must name nodes of that tree. -/
theorem build_copies_node_it_made :
    let T := (Op.appendChild 0 1).apply ((Op.createElement 0 "root").apply
      (Op.createDocument.apply Tree.empty))
    let spec := Spec.mapping [("#a", .list [.node 2])]
    T.size = 2 ∧
      build (.node 1) spec [] .strict T = .ok 3 ((Op.appendChild 2 3).apply ((Op.cloneNode 2 true).apply
        ((Op.appendChild 1 2).apply ((Op.createElement 0 "a").apply T)))) ∧
      denoteSpec .strict [] T (spec.callDepth []) (Scope.gather T 1) spec =
        .error (.tree (.hierarchy .documentInserted)) := by
  intro T spec
  have hfind : findDesignator none [("#a", Spec.list [.node 2])] =
      .ok (some ("#a", .named "a", .list [.node 2])) := rfl
  have hnorm : normalize (.node 1) spec [] T = .ok ⟨.parent, 1, 1, 0, spec, []⟩ T := rfl
  have hgather : Scope.gather T 1 = .empty := rfl
  have hplace : placeElement ⟨.parent, 1, 0⟩ .empty (.qualified "a")
      (attributeEntries [("#a", Spec.list [.node 2])]) [] .strict T =
      .ok (2, 2, .empty) ((Op.appendChild 1 2).apply ((Op.createElement 0 "a").apply T)) := by
    have hattrs : attributeEntries [("#a", Spec.list [.node 2])] = [] := rfl
    simp only [placeElement, materialize, hattrs, Name.sortEntries, List.mergeSort_nil]
    rfl
  refine ⟨rfl, ?_, ?_⟩
  · rw [build_apply_of_normalize hnorm]
    simp only [spec, buildSpec, Request.position]
    rw [buildObject_of_named hfind, hgather, bind_apply_of_eq_ok hplace]
    simp only [Spec.children, buildList, buildSpec]
    have hT₁ : (Op.appendChild 1 2).apply ((Op.createElement 0 "a").apply T) =
        ⟨#[⟨.document, none, none, [1]⟩, ⟨.element ⟨none, "root", none, []⟩, some 0, some 0, [2]⟩,
          ⟨.element ⟨none, "a", none, []⟩, some 0, some 1, []⟩]⟩ := rfl
    rw [hT₁]
    rfl
  · have hhead : objectHead [("#a", Spec.list [.node 2])] [] =
        .ok (.element (.qualified "a") [] [.node 2]) := rfl
    have helem : elementOf (.qualified "a") .empty [] [] .strict = .ok (⟨none, "a", none, []⟩, .empty) := by
      simp only [elementOf, Name.sortEntries, List.mergeSort_nil]
      rfl
    simp only [spec, denoteSpec, hgather]
    rw [denoteObject_of_element hhead, helem]
    simp only [denoteList_singleton, denoteSpec]
    rfl

end Markup
