import Markup.Proofs.Build.Element
import Mathlib.Logic.Relation

/-!
# Strict builds make coherent elements

Building under the strict policy keeps every element of the tree coherent (`Xml.Coherent`:
what the writer needs to write it faithfully), provided the namespace declarations the build
meets bind URIs without surrounding blanks and rebind neither `xml` nor `xmlns`.

The specs a build can meet are those reachable through `Spec.Step`: the items of a list, the
values of a mapping and what a callable returns. `Spec.DeclarationsTrimmed` asks the condition
of every mapping among them.

The main statement, `keeps_buildSpec`, is proved by the interpreter's own mutual induction
(`buildSpec.induct`), one case per branch. A new element keeps the condition by
`triple_placeElement`; text, comments, CDATA sections, instructions, fragments and clones make
no new element record, and attaching moves links only.
-/

namespace Markup

namespace Spec

/-- One step from a spec to a spec its build may go on to. -/
inductive Step (args : List Spec) : Spec → Spec → Prop
  | item {items : List Spec} {s : Spec} : s ∈ items → Step args (.list items) s
  | value {entries : List (String × Spec)} {k : String} {v : Spec} :
      (k, v) ∈ entries → Step args (.mapping entries) v
  | call (body : Template) : Step args (.callable body) (Spec.call body args)

/-- Every namespace declaration among the specs a build of `s` can reach is trimmed and
rebinds neither reserved prefix. -/
def DeclarationsTrimmed (args : List Spec) (s : Spec) : Prop :=
  ∀ entries, Relation.ReflTransGen (Step args) s (.mapping entries) →
    Markup.DeclaresTrimmed entries args

namespace DeclarationsTrimmed

variable {args : List Spec} {s s' : Spec}

theorem step (h : s.DeclarationsTrimmed args) (hs : Step args s s') :
    s'.DeclarationsTrimmed args :=
  fun entries hr => h entries (.head hs hr)

theorem entries {entries : List (String × Spec)}
    (h : (Spec.mapping entries).DeclarationsTrimmed args) : Markup.DeclaresTrimmed entries args :=
  h entries .refl

theorem children {entries : List (String × Spec)} (h : (Spec.mapping entries).DeclarationsTrimmed args)
    {k : String} {v : Spec} (hv : (k, v) ∈ entries) : ∀ x ∈ v.children, x.DeclarationsTrimmed args := by
  have hval := h.step (.value hv)
  cases v with
  | list items => exact fun x hx => hval.step (.item hx)
  | _ =>
    intro x hx
    rw [List.mem_singleton.1 hx]
    exact hval

theorem mapping {entries : List (String × Spec)} (h : Markup.DeclaresTrimmed entries args)
    (hv : ∀ e ∈ entries, e.2.DeclarationsTrimmed args) :
    (Spec.mapping entries).DeclarationsTrimmed args := by
  intro es hr
  rcases Relation.ReflTransGen.cases_head hr with heq | ⟨v, hstep, hv'⟩
  · cases heq
    exact h
  · cases hstep with
    | value hkv => exact hv _ hkv es hv'

theorem list {items : List Spec} (h : ∀ x ∈ items, x.DeclarationsTrimmed args) :
    (Spec.list items).DeclarationsTrimmed args := by
  intro es hr
  rcases Relation.ReflTransGen.cases_head hr with heq | ⟨x, hstep, hx⟩
  · cases heq
  · cases hstep with
    | item hmem => exact h x hmem es hx

/-- A string reaches no mapping. -/
theorem string (str : String) : (Spec.string str).DeclarationsTrimmed args := by
  intro es hr
  rcases Relation.ReflTransGen.cases_head hr with heq | ⟨x, hstep, -⟩
  · cases heq
  · cases hstep

end DeclarationsTrimmed

end Spec

theorem DeclaresTrimmed.attributeEntries {entries : List (String × Spec)} {args : List Spec}
    (h : DeclaresTrimmed entries args) : DeclaresTrimmed (attributeEntries entries) args :=
  fun e he => h e (List.mem_filter.1 he).1

open BuildM Markup.Tree

theorem keeps_buildText (pos : Position) (text : String) :
    Keeps (Elements Xml.Coherent) (buildText pos text) :=
  (triple_alloc fun t h => h.alloc _ fun e he => by cases he).bind fun n =>
    Mode.keeps_attach pos.mode n pos.reference

theorem keeps_clone (pos : Position) (n : NodeId) :
    Keeps (Elements Xml.Coherent)
      (BuildM.alloc (·.cloneNode n true) >>= fun copy => pos.mode.attach copy pos.reference) :=
  (triple_alloc fun _ h => h.cloneWithin n true _).bind fun copy =>
    Mode.keeps_attach pos.mode copy pos.reference

theorem keeps_buildReserved (pos : Position) (kind : Reserved) (children : List Spec)
    (attrs : List (String × Spec)) (args : List Spec) :
    Keeps (Elements Xml.Coherent) (buildReserved pos kind children attrs args) := by
  have hattach : ∀ n, Keeps (Elements Xml.Coherent) (pos.mode.attach n pos.reference) :=
    fun n => Mode.keeps_attach pos.mode n pos.reference
  -- the new node is a comment, CDATA section or instruction: no element record changes
  have hmade : ∀ {t : Tree} {c : Content} {r : Tree × NodeId}, Elements Xml.Coherent t →
      (∀ e, c ≠ .element e) → r = t.alloc c (some pos.doc) → Elements Xml.Coherent r.1 :=
    fun h hc hr => hr ▸ h.alloc _ fun e he => absurd he (hc e)
  unfold buildReserved
  cases kind with
  | comment =>
    exact (triple_alloc fun _ h => hmade h (by intro _ he; cases he) rfl).bind hattach
  | cdata =>
    refine (triple_make fun t r h hr => ?_).bind hattach
    simp only [Tree.createCData] at hr
    split at hr
    · cases hr
    · exact hmade h (by intro _ he; cases he) (Except.ok.inj hr).symm
  | instruction =>
    dsimp only
    split
    · exact triple_throw.bind hattach
    · split
      · exact triple_throw.bind hattach
      · refine (triple_make fun t r h hr => ?_).bind hattach
        simp only [Tree.createInstruction] at hr
        split at hr
        · cases hr
        · split at hr
          · cases hr
          · exact hmade h (by intro _ he; cases he) (Except.ok.inj hr).symm
  | doctype => exact triple_throw.bind hattach

/-- Placing an element keeps every element coherent and gives its children a scope that binds
neither reserved prefix. -/
theorem triple_placeElement (pos : Position) (tag : TagName) {scope : Scope}
    {attrs : List (String × Spec)} {args : List Spec} (hscope : scope.NoReservedBinding)
    (ha : DeclaresTrimmed attrs args) :
    Triple (Elements Xml.Coherent) (placeElement pos scope tag attrs args .strict)
      fun r t => Elements Xml.Coherent t ∧ r.2.2.NoReservedBinding := by
  intro t r t' ht hrun
  obtain ⟨⟨el, inner⟩, t₁, hmat, hrest⟩ := bind_eq_ok hrun
  obtain ⟨h₁, hinner⟩ := triple_materialize pos.doc tag hscope ha t _ t₁ ht hmat
  obtain ⟨attached, t₂, hattach, hret⟩ := bind_eq_ok hrest
  cases hret
  exact ⟨Mode.keeps_attach pos.mode el pos.reference t₁ attached t' h₁ hattach, hinner⟩

/-- An object spec with a named designator places an element of that name and builds the
designator's value under it. -/
theorem buildObject_of_named {policy : Policy} {args : List Spec} {fuel : Nat} {pos : Position}
    {scope : Scope} {entries : List (String × Spec)} {key name : String} {value : Spec}
    (h : findDesignator none entries = .ok (some (key, .named name, value))) :
    buildObject policy args fuel pos scope entries =
      placeElement pos scope (.qualified name) (attributeEntries entries) args policy >>= fun r =>
        match value.children with
        | [] => pure r.2.1
        | c :: cs => buildList policy args fuel (Position.inside r.1 pos.doc) r.2.2 (c :: cs) := by
  unfold buildObject
  split <;> rename_i h' <;>
    simp only [h, reduceCtorEq, Except.ok.injEq, Option.some.injEq, Prod.mk.injEq] at h'
  obtain ⟨rfl, rfl, rfl⟩ := h'
  dsimp only
  congr 1
  funext r
  split <;> rename_i hc <;> simp only [hc]

/-- Building any spec under the strict policy keeps every element coherent, when the scope
binds neither reserved prefix and the declarations the build meets are trimmed. -/
theorem keeps_buildSpec (args : List Spec) (fuel : Nat) (pos : Position) (scope : Scope) (s : Spec) :
    scope.NoReservedBinding → s.DeclarationsTrimmed args →
      Keeps (Elements Xml.Coherent) (buildSpec .strict args fuel pos scope s) := by
  refine buildSpec.induct .strict args
    (fun fuel pos scope s => scope.NoReservedBinding → s.DeclarationsTrimmed args →
      Keeps (Elements Xml.Coherent) (buildSpec .strict args fuel pos scope s))
    (fun fuel pos scope entries => scope.NoReservedBinding →
      (Spec.mapping entries).DeclarationsTrimmed args →
      Keeps (Elements Xml.Coherent) (buildObject .strict args fuel pos scope entries))
    (fun fuel pos scope items => scope.NoReservedBinding → (∀ x ∈ items, x.DeclarationsTrimmed args) →
      Keeps (Elements Xml.Coherent) (buildList .strict args fuel pos scope items))
    (fun fuel pos scope items => scope.NoReservedBinding → (∀ x ∈ items, x.DeclarationsTrimmed args) →
      Keeps (Elements Xml.Coherent) (buildItems .strict args fuel pos scope items))
    ?null ?list ?stop ?call ?node ?empty ?object ?bool ?number ?string ?failed ?declaration
    ?shorthand ?unparsed ?unmarked ?reserved ?bare ?element ?named ?nil ?single ?batch ?none
    ?some fuel pos scope s
  case null =>
    intro fuel pos scope _ _
    simp only [buildSpec]
    exact keeps_pure _
  case list =>
    intro fuel pos scope items ih hscope hs
    simp only [buildSpec]
    exact ih hscope fun x hx => hs.step (.item hx)
  case stop =>
    intro pos scope body _ _
    simp only [buildSpec]
    exact keeps_pure _
  case call =>
    intro pos scope body fuel ih hscope hs
    simp only [buildSpec]
    exact ih hscope (hs.step (.call body))
  case node =>
    intro fuel pos scope n _ _
    simp only [buildSpec]
    exact keeps_clone pos n
  case empty =>
    intro fuel pos scope _ _
    simp only [buildSpec]
    exact keeps_buildText pos ""
  case object =>
    intro fuel pos scope e es ih hscope hs
    simp only [buildSpec]
    exact ih hscope hs
  case bool =>
    intro fuel pos scope b _ _
    simp only [buildSpec]
    exact keeps_buildText pos _
  case number =>
    intro fuel pos scope n _ _
    simp only [buildSpec]
    exact keeps_buildText pos _
  case string =>
    intro fuel pos scope str _ _
    simp only [buildSpec]
    exact keeps_buildText pos _
  case failed =>
    intro fuel pos scope entries e hfind _ _
    unfold buildObject
    split <;> rename_i h <;> simp only [hfind, reduceCtorEq] at h
    exact triple_throw
  case declaration =>
    intro fuel pos scope key value q hq hdecl hfind _ _ _ _
    unfold buildObject
    split <;> rename_i h <;> simp only [hfind, reduceCtorEq, Except.ok.injEq] at h
    dsimp only
    simp only [hq, hdecl, if_true]
    exact triple_throw_bind
  case shorthand =>
    intro fuel pos scope key value q hq hdecl hfind hmem ih hscope hs
    unfold buildObject
    split <;> rename_i h <;> simp only [hfind, reduceCtorEq, Except.ok.injEq] at h
    dsimp only
    simp only [hq, hdecl]
    refine (triple_placeElement pos (.qualified key) hscope fun _ h => absurd h List.not_mem_nil).bind fun r => ?_
    split
    · exact triple_pure fun _ h => h.1
    · next c cs hc =>
      exact Triple.of_fact fun hinner => ih r.1 r.2.2 c cs hc hinner (hc ▸ hs.children hmem)
  case unparsed =>
    intro fuel pos scope key value hq hfind _ _ _
    unfold buildObject
    split <;> rename_i h <;> simp only [hfind, reduceCtorEq, Except.ok.injEq] at h
    dsimp only
    simp only [hq]
    exact triple_throw
  case unmarked =>
    intro fuel pos scope entries hfind hne _ _
    unfold buildObject
    split <;> rename_i h <;> simp only [hfind, reduceCtorEq, Except.ok.injEq] at h
    split
    · exact (hne _ _ rfl).elim
    · exact triple_throw
  case reserved =>
    intro fuel pos scope entries key value kind hfind hmem _ _
    unfold buildObject
    split <;> rename_i h <;>
      simp only [hfind, reduceCtorEq, Except.ok.injEq, Option.some.injEq, Prod.mk.injEq] at h
    obtain ⟨rfl, rfl, rfl⟩ := h
    exact keeps_buildReserved pos kind _ _ args
  case bare =>
    intro fuel pos scope entries key value hchildren hfind hmem _ _
    unfold buildObject
    split <;> rename_i h <;>
      simp only [hfind, reduceCtorEq, Except.ok.injEq, Option.some.injEq, Prod.mk.injEq] at h
    obtain ⟨rfl, rfl, rfl⟩ := h
    dsimp only
    split
    · exact triple_throw
    · next first rest hc => rw [hchildren] at hc; cases hc
  case element =>
    intro fuel pos scope entries key value c cs hchildren hfind hmem ih hscope hs
    unfold buildObject
    split <;> rename_i h <;>
      simp only [hfind, reduceCtorEq, Except.ok.injEq, Option.some.injEq, Prod.mk.injEq] at h
    obtain ⟨rfl, rfl, rfl⟩ := h
    dsimp only
    split
    · next hc => rw [hchildren] at hc; cases hc
    · next first rest hc =>
      rw [hchildren] at hc
      cases hc
      refine (triple_check fun _ _ _ h => h).bind fun tag => ?_
      refine (triple_placeElement pos tag hscope hs.entries.attributeEntries).bind fun r => ?_
      split
      · exact triple_pure fun _ h => h.1
      · rename_i c' cs'
        have hkids : ∀ x ∈ c' :: cs', x.DeclarationsTrimmed args := fun x hx =>
          hs.children hmem x (by rw [hchildren]; exact List.mem_cons_of_mem _ hx)
        exact Triple.of_fact fun hinner => ih r.1 r.2.2 c' cs' rfl hinner hkids
  case named =>
    intro fuel pos scope entries key value name hfind hmem ih hscope hs
    rw [buildObject_of_named hfind]
    refine (triple_placeElement pos (.qualified name) hscope hs.entries.attributeEntries).bind
      fun r => ?_
    split
    · exact triple_pure fun _ h => h.1
    · next c cs hc =>
      exact Triple.of_fact fun hinner => ih r.1 r.2.2 c cs hc hinner (hc ▸ hs.children hmem)
  case nil =>
    intro fuel pos scope _ _
    simp only [buildList]
    exact keeps_pure _
  case single =>
    intro fuel pos scope x ih hscope hs
    simp only [buildList]
    exact ih hscope (hs x (List.mem_singleton_self x))
  case batch =>
    intro fuel pos scope x y rest ihx ihrest hscope hs
    simp only [buildList]
    refine Keeps.bind (triple_alloc fun _ h => h.alloc _ (by intro _ he; cases he)) fun frag => ?_
    refine Keeps.bind (ihx frag hscope (hs x List.mem_cons_self)) fun _ => ?_
    refine Keeps.bind (ihrest frag hscope fun z hz => hs z (List.mem_cons_of_mem _ hz)) fun _ => ?_
    refine Keeps.bind (keeps_read _) fun first => ?_
    split
    · exact keeps_pure _
    · exact Mode.keeps_attach pos.mode frag pos.reference
  case none =>
    intro fuel pos scope _ _
    simp only [buildItems]
    exact keeps_pure _
  case some =>
    intro fuel pos scope x rest ihx ihrest hscope hs
    simp only [buildItems]
    exact (ihx hscope (hs x List.mem_cons_self)).bind fun _ =>
      ihrest hscope fun z hz => hs z (List.mem_cons_of_mem _ hz)

end Markup
