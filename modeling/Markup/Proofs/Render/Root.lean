import Markup.Proofs.Build.Shift
import Markup.Proofs.Build.Steps
import Markup.Proofs.Render.Namespaces

/-!
# A document or a fragment at the top

Rendering builds into a new document, or into a fragment owned by a new document, and writes
what it built. A spec read from JSON inserts into the node it is built into once at most: the
rest is built on nodes made along the way. So the two renderings go in step, the fragment's
tree being the document's renumbered one up, and they differ only at that one insertion, where
the document refuses text, CDATA and a second element and the fragment takes anything. Writing
the document and writing the fragment give the same text.
-/

namespace Markup

namespace Tree

variable {t t' u : Tree}

theorem eq_insertNodes_of_appendChild {p c : NodeId} (h : t.appendChild p c = .ok t') :
    t' = t.insertNodes p c none := by
  simp only [appendChild, bind, Except.bind] at h
  split at h <;> cases h
  rfl

theorem exists_modifyElement_of_setAttribute {el : NodeId} {name value : String}
    (h : t.setAttribute el name value = .ok t') : ∃ f, t' = t.modifyElement el f := by
  unfold setAttribute at h
  split at h
  · cases h
  · split at h <;> cases h
    exact ⟨_, rfl⟩

theorem exists_modifyElement_of_setAttributeNs {el : NodeId} {ns qualified value : String}
    (h : t.setAttributeNs el ns qualified value = .ok t') : ∃ f, t' = t.modifyElement el f := by
  unfold setAttributeNs at h
  split at h
  · cases h
  · split at h <;> cases h
    exact ⟨_, rfl⟩

/-- The document of a tree, node 0, holds `L` at its top. -/
def TopIs (L : List NodeId) (t : Tree) : Prop :=
  0 < t.size ∧ t.children 0 = L

theorem TopIs.alloc {L : List NodeId} (h : TopIs L t) (c : Content) (o : Option NodeId) :
    TopIs L (t.alloc c o).1 := by
  refine ⟨by simp, ?_⟩
  rw [children_alloc, if_neg (Nat.ne_of_lt h.1), h.2]

theorem TopIs.modifyElement {L : List NodeId} (h : TopIs L t) (n : NodeId) (f : Element → Element) :
    TopIs L (t.modifyElement n f) := by
  rw [TopIs, size_modifyElement, children_modifyElement]
  exact h

end Tree

namespace BuildM

open Markup.Tree

variable {α β : Type} {k : Nat} {P : Tree → Tree → Prop} {Q : α → β → Tree → Tree → Prop}

/-! ## What the first run keeps -/

/-- A fact that the first of two steps in step keeps holds along with their relation. -/
theorem RTriple.frame_left {I : Tree → Prop} {I' : α → Tree → Prop} {x : BuildM α}
    {y : BuildM β} (h : RTriple P x y Q) (hI : Triple I x I') :
    RTriple (fun t u => P t u ∧ I t) x y fun a b t u => Q a b t u ∧ I' a t := by
  rintro t u ⟨hP, hIt⟩
  have hxy := h t u hP
  revert hxy
  cases hxt : x t <;> cases y u <;> intro hxy
  · exact ⟨hxy, hI t _ _ hIt hxt⟩
  all_goals exact hxy

/-- Setting an attribute changes one element record and nothing else. -/
theorem keeps_setAttrEntry {I : Tree → Prop} (hI : ∀ t n f, I t → I (t.modifyElement n f))
    (el : NodeId) (scope : Scope) (args : List Spec) (policy : Policy) (entry : String × Spec) :
    Keeps I (setAttrEntry el scope args policy entry) := by
  have hset : ∀ name value, Keeps I (edit (·.setAttribute el name value)) := fun _ _ =>
    triple_edit fun _ _ h he => by
      obtain ⟨f, rfl⟩ := exists_modifyElement_of_setAttribute he
      exact hI _ _ _ h
  have hsetNs : ∀ ns name value, Keeps I (edit (·.setAttributeNs el ns name value)) :=
    fun _ _ _ => triple_edit fun _ _ h he => by
      obtain ⟨f, rfl⟩ := exists_modifyElement_of_setAttributeNs he
      exact hI _ _ _ h
  obtain ⟨key, value⟩ := entry
  unfold setAttrEntry
  dsimp only
  cases QName.parse? key with
  | none => exact keeps_pure _
  | some q =>
    cases Spec.flatten value args with
    | none => exact keeps_pure _
    | some text =>
      dsimp only
      split
      · exact hsetNs xmlnsNamespace key text
      · cases q.prefixName with
        | none => exact hset key text
        | some ap =>
          dsimp only
          cases scope.namespaceOf? ap with
          | some uri => exact hsetNs uri key text
          | none =>
            dsimp only
            split
            · exact triple_throw_bind
            · exact hset key text

/-- Making an element leaves the document's top as it is, and the node made is an element. -/
theorem triple_materialize_top (L : List NodeId) (doc : NodeId) (tag : TagName) (scope : Scope)
    (attrs : List (String × Spec)) (args : List Spec) (policy : Policy) :
    Triple (TopIs L) (materialize doc tag scope attrs args policy)
      fun r t => TopIs L t ∧ t.nodeType r.1 = .element := by
  -- the invariant of the attribute loop: the top, and the element's kind
  have hrest : ∀ (σ : Scope) el, Triple (fun t => TopIs L t ∧ t.nodeType el = .element)
      ((Name.sortEntries attrs).forM (setAttrEntry el σ args policy) >>= fun _ => pure (el, σ))
      fun r t => TopIs L t ∧ t.nodeType r.1 = .element := by
    intro σ el
    have hloop : ∀ es : List (String × Spec), Keeps (fun t => TopIs L t ∧ t.nodeType el = .element)
        (es.forM (setAttrEntry el σ args policy)) := by
      intro es
      induction es with
      | nil => exact keeps_pure _
      | cons e es ih =>
        exact (keeps_setAttrEntry (fun t n f h => ⟨h.1.modifyElement n f,
          by rw [nodeType_modifyElement]; exact h.2⟩) el σ args policy e).bind fun _ => ih
    exact Triple.bind (hloop _) fun _ => triple_pure fun _ h => h
  have hmake : ∀ f : Tree → Except TreeError (Tree × NodeId),
      (∀ t r, f t = .ok r → ∃ e o, r = t.alloc (.element e) o) →
      Triple (TopIs L) (make f) fun el t => TopIs L t ∧ t.nodeType el = .element := by
    intro f hf
    refine triple_make fun t r h he => ?_
    obtain ⟨e, o, rfl⟩ := hf t r he
    exact ⟨h.alloc _ o, by simp [nodeType_alloc, Content.type]⟩
  unfold materialize
  refine (triple_check fun _ _ _ h => h).bind fun r => ?_
  obtain ⟨qualified, pfx⟩ := r
  dsimp only
  split
  · refine (hmake _ fun t r he => ?_).bind fun el => hrest _ el
    simp only [createElementNs] at he
    split at he <;> cases he
    exact ⟨_, _, rfl⟩
  · split
    · exact triple_throw_bind
    · refine (hmake _ fun t r he => ?_).bind fun el => hrest _ el
      simp only [createElement] at he
      split at he <;> cases he
      exact ⟨_, _, rfl⟩

/-! ## Inserting at the top -/

/-- The outcomes of a build at the top of a document and at the top of the fragment standing in
its place: both fail; both succeed, in step; or only the document's fails, the fragment then
holding at its top what a document may not. -/
def RootOutcome :
    EStateM.Result BuildError Tree NodeId → EStateM.Result BuildError Tree NodeId → Prop
  | .ok a t, .ok b u => b = a + 1 ∧ t.Shifted u ∧ t.WellFormed
  | .error _ _, .error _ _ => True
  | .error _ _, .ok _ u => ¬ NodeType.DocumentAllows ((u.children 1).map u.nodeType)
  | .ok _ _, .error _ _ => False

theorem rootOutcome_of_outcome {r r' : EStateM.Result BuildError Tree NodeId}
    (h : Outcome (InStepAt k) r r') : RootOutcome r r' := by
  cases r <;> cases r'
  · exact ⟨h.1, h.2.shifted, h.2.wellFormed⟩
  · exact h.elim
  · exact h.elim
  · trivial

theorem RTriple.root {x y : BuildM NodeId} (h : RTriple P x y (InStepAt k)) :
    Related P x y RootOutcome :=
  fun t u hP => rootOutcome_of_outcome (h t u hP)

theorem related_throw_bind {e e' : BuildError} {f g : α → BuildM NodeId} :
    Related P (throw e >>= f) (throw e' >>= g) RootOutcome :=
  fun _ _ _ => trivial

theorem attach_parent_apply (c p : NodeId) (t : Tree) :
    Mode.parent.attach c p t =
      match t.appendChild p c with
      | .ok t' => .ok ((t'.lastChild p).getD p) t'
      | .error e => .error (.tree e) t := by
  cases h : t.appendChild p c <;>
    simp only [Mode.attach, bind, EStateM.bind, BuildM.edit, BuildM.read, h, pure, EStateM.pure]

section

variable {t t' u : Tree} {n : NodeId} (hs : InStep k t u) (hn0 : n ≠ 0) (hn : n < t.size)
include hs hn0 hn

/-- When the document takes a node, the fragment takes its renumbering, and the trees stay in
step. -/
theorem outcome_attach_root (hd : t.appendChild 0 n = .ok t') :
    Outcome (InStepAt k) (Mode.parent.attach n 0 t) (Mode.parent.attach (n + 1) 1 u) := by
  have hsh := hs.shifted.insertNodes hs.wellFormed hs.shifted.pos hn0 hn
  have hlast := hsh.lastChild 0
  rw [Nat.zero_add] at hlast
  rw [attach_parent_apply, attach_parent_apply, hd, hs.shifted.appendChild_one hs.wellFormed hn0 hn]
  have hsize := (appendChild_spliced hs.wellFormed hs.shifted.pos hd).size_eq
  obtain rfl := eq_insertNodes_of_appendChild hd
  refine ⟨?_, hsh, hs.wellFormed.appendChild hs.shifted.pos hd, hsize ▸ hs.size_ge⟩
  show ((u.insertNodes 1 (n + 1) none).lastChild 1).getD 1 = _
  rw [hlast]
  cases (t.insertNodes 0 n none).lastChild 0 <;> rfl

/-- When the document refuses a node, the fragment takes its renumbering and then holds at its
top what a document may not. -/
theorem rootOutcome_attach_of_error {e : TreeError} (hd : t.appendChild 0 n = .error e) :
    RootOutcome (Mode.parent.attach n 0 t) (Mode.parent.attach (n + 1) 1 u) := by
  rw [attach_parent_apply, attach_parent_apply, hd, hs.shifted.appendChild_one hs.wellFormed hn0 hn]
  show ¬ NodeType.DocumentAllows _
  intro hallow
  obtain ⟨t', ht'⟩ := (hs.shifted.appendChild_zero_iff hs.wellFormed hn0 hn).2 hallow
  rw [hd] at ht'
  cases ht'

end

/-- A node made in step, inserted at the top of the document and of the fragment. -/
theorem related_attach_root {n n' : NodeId} :
    Related (Fresh k n n') (Mode.parent.attach n 0) (Mode.parent.attach n' 1) RootOutcome := by
  rintro t u ⟨hn, hpos, -, hs⟩
  subst hn
  have hn : n < t.size := hs.size_ge
  cases hd : t.appendChild 0 n with
  | error e => exact rootOutcome_attach_of_error (hs.mono (Nat.zero_le _)) hpos.ne' hn hd
  | ok t' => exact rootOutcome_of_outcome (outcome_attach_root hs hpos.ne' hn hd)

/-- An empty document takes an element. -/
theorem rtriple_attach_root_element {el : NodeId} (hpos : 0 < el) :
    RTriple (fun t u => InStep (el + 1) t u ∧ t.children 0 = [] ∧ t.nodeType el = .element)
      (Mode.parent.attach el 0) (Mode.parent.attach (el + 1) 1) (InStepAt (el + 1)) := by
  rintro t u ⟨hs, hnil, hel⟩
  have hn : el < t.size := hs.size_ge
  have hallow : NodeType.DocumentAllows ((spliceBefore (t.children 0) (t.incoming el) none).map
      t.nodeType) := by
    have hinc : t.incoming el = [el] := if_neg (by rw [hel]; decide)
    rw [hnil, hinc]
    simp [spliceBefore, hel, NodeType.DocumentAllows]
  rw [← hs.shifted.top_insertNodes_zero hs.wellFormed hpos.ne' hn,
    ← hs.shifted.appendChild_zero_iff hs.wellFormed hpos.ne' hn] at hallow
  obtain ⟨t', hd⟩ := hallow
  exact outcome_attach_root hs hpos.ne' hn hd

/-! ## Building at the top -/

/-- Where builds at the top start: trees in step, with nothing yet in the document. -/
def RootStart (t u : Tree) : Prop :=
  InStep 0 t u ∧ t.children 0 = []

variable (d : NodeId)

theorem related_buildText_root (text : String) :
    Related RootStart (buildText (Position.inside 0 d) text) (buildText (Position.inside 1 d) text)
      RootOutcome :=
  Related.bind ((rtriple_alloc (c := .text text) (o := some d) (by simp [Content.type])
    (fun _ he => by cases he) fun _ => rfl).mono (fun _ _ h => h.1) fun _ _ _ _ h => h)
    (fun _ _ => related_attach_root) fun _ _ _ _ => trivial

theorem related_buildReserved_root (kind : Reserved) (children : List Spec)
    (attrs : List (String × Spec)) (args : List Spec) :
    Related RootStart (buildReserved (Position.inside 0 d) kind children attrs args)
      (buildReserved (Position.inside 1 d) kind children attrs args) RootOutcome := by
  have hmade : ∀ {x : BuildM NodeId}, RTriple (InStep 0) x x (Fresh 0) →
      Related RootStart (x >>= fun n => Mode.parent.attach n 0)
        (x >>= fun n => Mode.parent.attach n 1) RootOutcome := fun hx =>
    Related.bind (hx.mono (fun _ _ h => h.1) fun _ _ _ _ h => h) (fun _ _ => related_attach_root)
      fun _ _ _ _ => trivial
  unfold buildReserved
  cases kind with
  | comment => exact hmade (rtriple_alloc (by simp [Content.type]) (fun _ he => by cases he)
      fun _ => rfl)
  | cdata => exact hmade (rtriple_make (makesNode_createCData ..))
  | instruction =>
    cases children with
    | nil => exact related_throw_bind
    | cons first rest =>
      dsimp only
      split
      · exact related_throw_bind
      · exact hmade (rtriple_make (makesNode_createInstruction ..))
  | doctype => exact related_throw_bind

/-- An element placed at the top of an empty document and of the fragment: the element, the
node at the attachment point and the element's scope correspond. -/
theorem rtriple_placeElement_root (scope : Scope) (tag : TagName) (attrs : List (String × Spec))
    (args : List Spec) (policy : Policy) :
    RTriple RootStart (placeElement (Position.inside 0 d) scope tag attrs args policy)
      (placeElement (Position.inside 1 d) scope tag attrs args policy)
      fun x x' t u => x'.2.2 = x.2.2 ∧ x'.2.1 = x.2.1 + 1 ∧ Fresh 0 x.1 x'.1 t u := by
  unfold placeElement
  refine (((rtriple_materialize d tag scope attrs args policy).frame_left
    (triple_materialize_top [] d tag scope attrs args policy)).mono
      (fun t u h => ⟨h.1, h.1.shifted.pos, h.2⟩) fun _ _ _ _ h => h).bind fun m m' => ?_
  obtain ⟨el, inner⟩ := m
  obtain ⟨el', inner'⟩ := m'
  refine RTriple.of_pre (F := inner = inner' ∧ el' = el + 1 ∧ 0 < el)
    (fun _ _ h => ⟨h.1.1.symm, h.1.2.1, h.1.2.2.1⟩) fun hF => ?_
  obtain ⟨hi, hel, hpos⟩ := hF
  subst hi hel
  refine ((rtriple_attach_root_element hpos).mono (fun _ _ h => ⟨h.1.2.2.2.2, h.2.1.2, h.2.2⟩)
    fun _ _ _ _ h => h).bind fun a a' => ?_
  refine RTriple.of_pre (F := a' = a + 1) (fun _ _ h => h.1) fun ha => ?_
  subst ha
  exact rtriple_pure fun _ _ h => ⟨rfl, rfl, rfl, hpos, Nat.zero_le _, h.2⟩

variable (policy : Policy) (args : List Spec) (fuel : Nat) (scope : Scope)

/-- The children of an element placed at the top are built in step under it. -/
theorem related_placed_root (tag : TagName) (attrs : List (String × Spec)) {xs : List Spec}
    (hxs : ∀ x ∈ xs, x.Plain) :
    Related RootStart
      (placeElement (Position.inside 0 d) scope tag attrs args policy >>= fun r =>
        match xs with
        | [] => pure r.2.1
        | c :: cs => buildList policy args fuel (Position.inside r.1 d) r.2.2 (c :: cs))
      (placeElement (Position.inside 1 d) scope tag attrs args policy >>= fun r =>
        match xs with
        | [] => pure r.2.1
        | c :: cs => buildList policy args fuel (Position.inside r.1 d) r.2.2 (c :: cs))
      RootOutcome :=
  RTriple.root ((rtriple_placeElement_root d scope tag attrs args policy).bind
    (rtriple_placed (f := fun el inner c cs =>
        buildList policy args fuel (Position.inside el d) inner (c :: cs))
      fun _ _ _ _ hc hpos => buildList_shift policy args fuel d hpos.ne' _ (hc ▸ hxs)
        (Nat.lt_succ_self _)))

theorem related_buildObject_root {entries : List (String × Spec)}
    (hs : (Spec.mapping entries).Plain) :
    Related RootStart (buildObject policy args fuel (Position.inside 0 d) scope entries)
      (buildObject policy args fuel (Position.inside 1 d) scope entries) RootOutcome := by
  cases hfind : findDesignator none entries with
  | error e =>
    rw [buildObject_of_error hfind, buildObject_of_error hfind]
    exact fun _ _ _ => trivial
  | ok found =>
    cases found with
    | none =>
      by_cases hone : ∃ key value, entries = [(key, value)]
      · obtain ⟨key, value, rfl⟩ := hone
        have hv := (hs.of_mem (List.mem_singleton_self _)).children
        -- a single qualified name that is no declaration names the element
        cases hq : QName.parse? key with
        | none =>
          have hmissing : ∀ q, QName.parse? key = some q → q.isDeclaration = true := by
            intro q hq'
            rw [hq] at hq'
            cases hq'
          rw [buildObject_of_missing hfind hmissing, buildObject_of_missing hfind hmissing]
          exact fun _ _ _ => trivial
        | some q =>
          cases hdecl : q.isDeclaration with
          | true =>
            have hmissing : ∀ q', QName.parse? key = some q' → q'.isDeclaration = true := by
              intro q' hq'
              rw [hq, Option.some.injEq] at hq'
              exact hq' ▸ hdecl
            rw [buildObject_of_missing hfind hmissing, buildObject_of_missing hfind hmissing]
            exact fun _ _ _ => trivial
          | false =>
            rw [buildObject_of_shorthand hfind hq hdecl, buildObject_of_shorthand hfind hq hdecl]
            exact related_placed_root d policy args fuel scope _ [] hv
      · have hne : ∀ k v, entries ≠ [(k, v)] := fun k v he => hone ⟨k, v, he⟩
        rw [buildObject_of_unmarked hfind hne, buildObject_of_unmarked hfind hne]
        exact fun _ _ _ => trivial
    | some found =>
      obtain ⟨key, designator, value⟩ := found
      have hv := (hs.of_mem ((mem_of_findDesignator hfind).resolve_left (by simp))).children
      cases designator with
      | reserved kind =>
        rw [buildObject_of_reserved hfind, buildObject_of_reserved hfind]
        exact related_buildReserved_root d kind _ _ args
      | element =>
        cases hc : value.children with
        | nil =>
          rw [buildObject_of_bare hfind hc, buildObject_of_bare hfind hc]
          exact fun _ _ _ => trivial
        | cons c cs =>
          rw [hc] at hv
          rw [buildObject_of_element hfind hc, buildObject_of_element hfind hc]
          refine Related.bind rtriple_check (fun tag tag' => Related.of_fact fun htag => ?_)
            fun _ _ _ _ => trivial
          subst htag
          exact related_placed_root d policy args fuel scope tag _
            fun x hx => hv x (List.mem_cons_of_mem _ hx)
      | named name =>
        rw [buildObject_of_named hfind, buildObject_of_named hfind]
        exact related_placed_root d policy args fuel scope _ _ hv

/-- A batch built at the top goes into a new fragment, in step; the fragment is inserted at the
top once, if it got any children. -/
theorem related_batch_root {x y : Spec} {rest : List Spec} (hs : ∀ z ∈ x :: y :: rest, z.Plain) :
    Related RootStart (buildList policy args fuel (Position.inside 0 d) scope (x :: y :: rest))
      (buildList policy args fuel (Position.inside 1 d) scope (x :: y :: rest)) RootOutcome := by
  simp only [buildList]
  refine Related.bind (R := RootOutcome) ((rtriple_alloc (c := .fragment) (o := some d) (by simp [Content.type])
    (fun _ he => by cases he) fun _ => rfl).mono (fun _ _ h => h.1) fun _ _ _ _ h => h)
    (fun f f' => ?_) fun _ _ _ _ => trivial
  refine Related.of_pre (F := f' = f + 1 ∧ 0 < f) (fun _ _ h => ⟨h.1, h.2.1⟩) fun hF => ?_
  obtain ⟨hf, hpos⟩ := hF
  subst hf
  -- the items are built in step under the new fragment
  refine Related.bind (R := RootOutcome) ((buildSpec_shift policy args fuel d hpos.ne' scope
    (hs x List.mem_cons_self) (Nat.lt_succ_self f)).mono (fun _ _ h => h.2.2.2)
      fun _ _ _ _ h => h) (fun _ _ => ?_) fun _ _ _ _ => trivial
  refine Related.bind (R := RootOutcome) ((buildItems_shift policy args fuel d hpos.ne' scope
    (fun z hz => hs z (List.mem_cons_of_mem _ hz)) (Nat.lt_succ_self f)).mono
      (fun _ _ h => h.2) fun _ _ _ _ h => h) (fun _ _ => ?_) fun _ _ _ _ => trivial
  refine Related.bind (R := RootOutcome)
    (rtriple_read (Q := fun l l' t u => l' = l.map (· + 1) ∧ InStep (f + 1) t u)
    fun t u hs => ⟨hs.shifted.firstChild f, hs⟩) (fun l l' => ?_) fun _ _ _ _ => trivial
  refine Related.of_pre (F := l' = l.map (· + 1)) (fun _ _ h => h.1) fun hl => ?_
  subst hl
  -- an empty fragment is not inserted; a filled one is, once
  cases l with
  | none => exact fun _ _ h => ⟨rfl, h.2.shifted, h.2.wellFormed⟩
  | some _ =>
    exact related_attach_root.pre fun _ _ h => ⟨rfl, hpos, Nat.zero_le _, h.2⟩

/-- A spec read from JSON built at the top of an empty document, and at the top of the
fragment in its place: both builds fail; both succeed, in step; or only the document's fails,
the fragment then holding at its top what a document may not. -/
theorem buildSpec_root {s : Spec} (hs : s.Plain) :
    Related RootStart (buildSpec policy args fuel (Position.inside 0 d) scope s)
      (buildSpec policy args fuel (Position.inside 1 d) scope s) RootOutcome := by
  -- only a one-item list builds at the top again
  induction hs with
  | null =>
    simp only [buildSpec]
    exact fun _ _ h => ⟨rfl, h.1.shifted, h.1.wellFormed⟩
  | bool b =>
    simp only [buildSpec]
    exact related_buildText_root d _
  | number n =>
    simp only [buildSpec]
    exact related_buildText_root d _
  | string str =>
    simp only [buildSpec]
    exact related_buildText_root d _
  | @list items hitems ih =>
    simp only [buildSpec]
    rcases items with _ | ⟨x, _ | ⟨y, rest⟩⟩
    · simp only [buildList]
      exact fun _ _ h => ⟨rfl, h.1.shifted, h.1.wellFormed⟩
    · simp only [buildList]
      exact ih x (List.mem_singleton_self x)
    · exact related_batch_root d policy args fuel scope hitems
  | @mapping entries hentries _ =>
    cases entries with
    | nil =>
      simp only [buildSpec]
      exact related_buildText_root d _
    | cons e es =>
      simp only [buildSpec]
      exact related_buildObject_root d policy args fuel scope (.mapping hentries)

end BuildM

/-! ## Rendering at the top -/

namespace Tree

/-- A new fragment in a new document renumbers the new document. -/
theorem shifted_createFragment :
    Shifted Tree.empty.createDocument.1 (Tree.empty.createDocument.1.createFragment 0).1 := by
  have hsize : Tree.empty.createDocument.1.size = 1 := rfl
  have hlarge : ∀ n, n ≠ 0 → Tree.empty.createDocument.1.size ≤ n := fun n hn => by
    rw [hsize]
    exact Nat.one_le_iff_ne_zero.2 hn
  have hlarge' : ∀ n, n ≠ 0 → (Tree.empty.createDocument.1.createFragment 0).1.size ≤ n + 1 :=
    fun n hn => by
      simp only [createFragment, size_alloc, hsize]
      exact Nat.succ_le_succ (Nat.one_le_iff_ne_zero.2 hn)
  refine ⟨by simp [createFragment], by rw [hsize]; exact Nat.one_pos, rfl, rfl, ?_, ?_, ?_, ?_⟩
  · intro n hn hlt
    exact absurd (hlarge n hn) (Nat.not_le.2 hlt)
  · intro n hn
    rw [get_of_size_le (hlarge' n hn), get_of_size_le (hlarge n hn)]
  · intro n
    by_cases hn : n = 0
    · subst hn
      rfl
    · rw [parent_of_size_le (hlarge' n hn), parent_of_size_le (hlarge n hn)]
      rfl
  · intro n
    by_cases hn : n = 0
    · subst hn
      rfl
    · rw [children_of_size_le (hlarge' n hn), children_of_size_le (hlarge n hn)]
      rfl

theorem rootStart_createFragment :
    BuildM.RootStart Tree.empty.createDocument.1 (Tree.empty.createDocument.1.createFragment 0).1 :=
  ⟨⟨shifted_createFragment, WellFormed.empty.alloc _ _ (fun _ he => by cases he), Nat.zero_le _⟩, rfl⟩

end Tree

namespace RenderConfig

/-- Rendering JSON into a document succeeds exactly when rendering it into a fragment succeeds
and the fragment holds at its top no text, no CDATA section and at most one element; without
an XML declaration, the two renderings then write the same text. -/
theorem renderValue_document_iff_fragment (c : RenderConfig) (hdecl : c.declaration = false)
    (v : Json) :
    ((∃ s, ({ c with root := .document } : RenderConfig).renderValue v = .ok s) ↔
      (∃ s, ({ c with root := .fragment } : RenderConfig).renderValue v = .ok s) ∧
        ∀ t r, ({ c with root := .fragment } : RenderConfig).buildInto (Spec.ofJson v) [] =
          .ok (t, r) → NodeType.DocumentAllows ((t.children r).map t.nodeType)) ∧
    ∀ s s', ({ c with root := .document } : RenderConfig).renderValue v = .ok s →
      ({ c with root := .fragment } : RenderConfig).renderValue v = .ok s' → s = s' := by
  have hrel : BuildM.RootOutcome
      (buildSpec c.policy [] ((Spec.ofJson v).callDepth []) ⟨.parent, 0, 0⟩ .empty (Spec.ofJson v)
        Tree.empty.createDocument.1)
      (buildSpec c.policy [] ((Spec.ofJson v).callDepth []) ⟨.parent, 1, 0⟩ .empty (Spec.ofJson v)
        (Tree.empty.createDocument.1.createFragment 0).1) :=
    BuildM.buildSpec_root 0 c.policy [] _ .empty (Spec.plain_ofJson v) _ _
      Tree.rootStart_createFragment
  simp only [renderValue, renderSpec,
    buildInto_document (c := { c with root := .document }) _ _ rfl,
    buildInto_fragment (c := { c with root := .fragment }) _ _ rfl]
  generalize buildSpec c.policy [] ((Spec.ofJson v).callDepth []) ⟨.parent, 0, 0⟩ .empty
    (Spec.ofJson v) Tree.empty.createDocument.1 = x at hrel ⊢
  generalize buildSpec c.policy [] ((Spec.ofJson v).callDepth []) ⟨.parent, 1, 0⟩ .empty
    (Spec.ofJson v) (Tree.empty.createDocument.1.createFragment 0).1 = y at hrel ⊢
  cases x with
  | ok a t =>
    cases y with
    | ok b u =>
      obtain ⟨-, hsh, hw⟩ := hrel
      -- the document's top, read in the fragment, and the same text written from both
      have htop : NodeType.DocumentAllows ((u.children 1).map u.nodeType) := by
        rw [hsh.top_nodeTypes fun h0 => hsh.ne_zero_of_mem_children hw h0 rfl]
        exact hw.document hsh.nodeType_zero
      simp only [writeOptions, Except.ok.injEq, exists_eq', Prod.mk.injEq, and_imp,
        forall_apply_eq_imp_iff, forall_eq', true_and, true_iff]
      exact ⟨htop, (hsh.serialize hw hdecl).symm⟩
    | error e u => exact hrel.elim
  | error e t =>
    cases y with
    | ok b u =>
      simp only [reduceCtorEq, exists_const, writeOptions, Except.ok.injEq, exists_eq',
        Prod.mk.injEq, and_imp, forall_apply_eq_imp_iff, forall_eq', true_and, false_iff,
        IsEmpty.forall_iff, implies_true, and_true]
      exact hrel
    | error e' u =>
      simp only [reduceCtorEq, exists_const, IsEmpty.forall_iff, implies_true, and_true, and_self]

theorem renderValue_document_iff_fragment_default :
    ({} : RenderConfig).declaration = false ∧
      (((∃ s, ({ ({} : RenderConfig) with root := .document } : RenderConfig).renderValue
          (.string "x") = .ok s) ↔
        (∃ s, ({ ({} : RenderConfig) with root := .fragment } : RenderConfig).renderValue
          (.string "x") = .ok s) ∧
          ∀ t r, ({ ({} : RenderConfig) with root := .fragment } : RenderConfig).buildInto
            (Spec.ofJson (.string "x")) [] = .ok (t, r) →
              NodeType.DocumentAllows ((t.children r).map t.nodeType)) ∧
      ∀ s s', ({ ({} : RenderConfig) with root := .document } : RenderConfig).renderValue
          (.string "x") = .ok s →
        ({ ({} : RenderConfig) with root := .fragment } : RenderConfig).renderValue
          (.string "x") = .ok s' → s = s') :=
  ⟨rfl, renderValue_document_iff_fragment {} rfl (.string "x")⟩

end RenderConfig

end Markup
