import Markup.Proofs.Tree.Shift
import Markup.Proofs.Build.Reorder
import Markup.Proofs.Tree.Reachable

/-!
# Building into a renumbered tree

A build of a spec read from JSON touches the tree only through its reference and the nodes it
makes. Run on two trees that are renumberings of each other (`Tree.Shifted`), with the
reference renumbered too, the two runs go in step: both fail, or both succeed, the second
returning the renumbered node and leaving the renumbering of the first's tree
(`buildSpec_shift`).

Only an insertion under node 0 tells the runs apart, where the first tree holds its document
and the second a fragment: the document refuses text, CDATA and a second element. A build at
node 0 inserts there once at most, so its runs differ only in that the first fails when what
it puts at the top is more than a document may hold (`buildSpec_root`).

`RTriple P x y Q` is the relational form of a step: run from trees where `P` holds, `x` and `y`
both fail, or both succeed with results and trees where `Q` holds.
-/

namespace Markup

/-- A spec as JSON gives it: no callables and no node handles. -/
inductive Spec.Plain : Spec → Prop
  | null : Spec.Plain .null
  | bool (b : Bool) : Spec.Plain (.bool b)
  | number (n : Number) : Spec.Plain (.number n)
  | string (s : String) : Spec.Plain (.string s)
  | list {items : List Spec} : (∀ x ∈ items, Spec.Plain x) → Spec.Plain (.list items)
  | mapping {entries : List (String × Spec)} : (∀ e ∈ entries, Spec.Plain e.2) →
      Spec.Plain (.mapping entries)

namespace Spec.Plain

theorem children {v : Spec} (h : v.Plain) : ∀ x ∈ v.children, x.Plain := by
  cases h with
  | list h => exact h
  | _ =>
    intro x hx
    rw [List.mem_singleton.1 hx]
    constructor <;> assumption

theorem items {items : List Spec} (h : (Spec.list items).Plain) : ∀ x ∈ items, x.Plain := by
  cases h with
  | list h => exact h

theorem of_mem {entries : List (String × Spec)} (h : (Spec.mapping entries).Plain) {k : String}
    {v : Spec} (hv : (k, v) ∈ entries) : v.Plain := by
  cases h with
  | mapping h => exact h _ hv

end Spec.Plain

mutual

theorem Spec.plain_ofJson : (v : Json) → (Spec.ofJson v).Plain
  | .null => .null
  | .bool b => .bool b
  | .number n => .number n
  | .string s => .string s
  | .array items => .list (Spec.plain_ofJsonItems items)
  | .object entries => .mapping (Spec.plain_ofJsonEntries entries)

theorem Spec.plain_ofJsonItems : (items : List Json) → ∀ x ∈ Spec.ofJsonItems items, x.Plain
  | [] => fun _ hx => absurd hx List.not_mem_nil
  | j :: js => fun x hx => by
    rcases List.mem_cons.1 hx with rfl | hx
    · exact Spec.plain_ofJson j
    · exact Spec.plain_ofJsonItems js x hx

theorem Spec.plain_ofJsonEntries :
    (entries : List (String × Json)) → ∀ e ∈ Spec.ofJsonEntries entries, e.2.Plain
  | [] => fun _ he => absurd he List.not_mem_nil
  | (_, j) :: js => fun e he => by
    rcases List.mem_cons.1 he with rfl | he
    · exact Spec.plain_ofJson j
    · exact Spec.plain_ofJsonEntries js e he

end

namespace BuildM

variable {α β γ δ : Type}

/-- The outcomes of two runs: both fail, or both succeed with results and trees where `Q`
holds. -/
def Outcome (Q : α → β → Tree → Tree → Prop) :
    EStateM.Result BuildError Tree α → EStateM.Result BuildError Tree β → Prop
  | .ok a t, .ok b u => Q a b t u
  | .error _ _, .error _ _ => True
  | _, _ => False

/-- Two steps run on trees where `P` holds end in outcomes where `R` holds. -/
def Related (P : Tree → Tree → Prop) (x : BuildM α) (y : BuildM β)
    (R : EStateM.Result BuildError Tree α → EStateM.Result BuildError Tree β → Prop) : Prop :=
  ∀ t u, P t u → R (x t) (y u)

/-- Two steps run on trees where `P` holds both fail, or both succeed with results and trees
where `Q` holds. -/
def RTriple (P : Tree → Tree → Prop) (x : BuildM α) (y : BuildM β)
    (Q : α → β → Tree → Tree → Prop) : Prop :=
  Related P x y (Outcome Q)

variable {P P' : Tree → Tree → Prop} {Q Q' : α → β → Tree → Tree → Prop}
  {S : γ → δ → Tree → Tree → Prop}
  {R : EStateM.Result BuildError Tree γ → EStateM.Result BuildError Tree δ → Prop}

/-- Steps in step, followed by steps related by `R`, are related by `R` when `R` relates two
failures. -/
theorem Related.bind {x : BuildM α} {y : BuildM β} {f : α → BuildM γ} {g : β → BuildM δ}
    (hx : RTriple P x y Q) (hf : ∀ a b, Related (Q a b) (f a) (g b) R)
    (herr : ∀ e e' t u, R (.error e t) (.error e' u)) : Related P (x >>= f) (y >>= g) R := by
  intro t u hP
  have hxy := hx t u hP
  change R (EStateM.bind x f t) (EStateM.bind y g u)
  unfold EStateM.bind
  cases hxt : x t <;> cases hyu : y u <;> rw [hxt, hyu] at hxy
  · exact hf _ _ _ _ hxy
  · exact hxy.elim
  · exact hxy.elim
  · exact herr _ _ _ _

theorem RTriple.bind {x : BuildM α} {y : BuildM β} {f : α → BuildM γ} {g : β → BuildM δ}
    (hx : RTriple P x y Q) (hf : ∀ a b, RTriple (Q a b) (f a) (g b) S) :
    RTriple P (x >>= f) (y >>= g) S :=
  Related.bind hx hf fun _ _ _ _ => trivial

theorem RTriple.mono {x : BuildM α} {y : BuildM β} (h : RTriple P x y Q)
    (hP : ∀ t u, P' t u → P t u) (hQ : ∀ a b t u, Q a b t u → Q' a b t u) : RTriple P' x y Q' := by
  intro t u hP'
  have hxy := h t u (hP t u hP')
  revert hxy
  cases x t <;> cases y u
  · exact hQ _ _ _ _
  · exact id
  · exact id
  · exact id

theorem Related.pre {x : BuildM α} {y : BuildM β}
    {R : EStateM.Result BuildError Tree α → EStateM.Result BuildError Tree β → Prop}
    (h : Related P x y R) (hP : ∀ t u, P' t u → P t u) : Related P' x y R :=
  fun t u hP' => h t u (hP t u hP')

/-- A fact about where the steps start may be assumed while proving them. -/
theorem Related.of_fact {F : Prop} {x : BuildM α} {y : BuildM β}
    {R : EStateM.Result BuildError Tree α → EStateM.Result BuildError Tree β → Prop}
    (h : F → Related P x y R) : Related (fun t u => P t u ∧ F) x y R :=
  fun t u hP => h hP.2 t u hP.1

theorem RTriple.of_fact {F : Prop} {x : BuildM α} {y : BuildM β} (h : F → RTriple P x y Q) :
    RTriple (fun t u => P t u ∧ F) x y Q :=
  Related.of_fact h

theorem rtriple_pure {a : α} {b : β} (h : ∀ t u, P t u → Q a b t u) :
    RTriple P (pure a) (pure b) Q :=
  fun t u hP => h t u hP

theorem rtriple_throw {e e' : BuildError} : RTriple P (throw e : BuildM α) (throw e' : BuildM β) Q :=
  fun _ _ _ => trivial

theorem rtriple_throw_bind {e e' : BuildError} {f : α → BuildM γ} {g : β → BuildM δ} :
    RTriple P (throw e >>= f) (throw e' >>= g) S :=
  fun _ _ _ => trivial

theorem rtriple_check {r : Except BuildError α} :
    RTriple P (check r) (check r) fun a b t u => P t u ∧ a = b := by
  cases r with
  | error e => exact rtriple_throw
  | ok a => exact rtriple_pure fun _ _ h => ⟨h, rfl⟩

theorem rtriple_read {f : Tree → α} {g : Tree → β} (h : ∀ t u, P t u → Q (f t) (g u) t u) :
    RTriple P (read f) (read g) Q :=
  fun t u hP => h t u hP

/-- A fact that holds wherever the steps may start may be assumed while proving them. -/
theorem Related.of_pre {F : Prop} {x : BuildM α} {y : BuildM β}
    {R : EStateM.Result BuildError Tree α → EStateM.Result BuildError Tree β → Prop}
    (hF : ∀ t u, P t u → F) (h : F → Related P x y R) : Related P x y R :=
  fun t u hP => h (hF t u hP) t u hP

theorem RTriple.of_pre {F : Prop} {x : BuildM α} {y : BuildM β} (hF : ∀ t u, P t u → F)
    (h : F → RTriple P x y Q) : RTriple P x y Q :=
  Related.of_pre hF h

end BuildM

/-! ## Trees in step -/

namespace Tree

variable {k : Nat} {t t' u : Tree}

/-- Two trees a build keeps in step: the second renumbers the first, which is well formed and
holds at least `k` nodes. -/
structure InStep (k : Nat) (t u : Tree) : Prop where
  shifted : t.Shifted u
  wellFormed : t.WellFormed
  size_ge : k ≤ t.size

theorem InStep.mono (h : InStep k t u) {k' : Nat} (hk : k' ≤ k) : InStep k' t u :=
  ⟨h.shifted, h.wellFormed, hk.trans h.size_ge⟩

/-- A node with no attributes, made on both trees, is the next node of each. -/
theorem InStep.alloc (h : InStep k t u) {c : Content} (hc : c.type ≠ .document)
    (hattrs : ∀ e, c = .element e → e.attrs = []) (o : Option NodeId) :
    InStep (t.size + 1) (t.alloc c o).1 (u.alloc c o).1 :=
  ⟨h.shifted.alloc hc o, h.wellFormed.alloc c o fun e he => by simp [hattrs e he], by simp⟩

theorem size_of_setAttribute {el : NodeId} {name value : String}
    (he : t.setAttribute el name value = .ok t') : t'.size = t.size := by
  unfold Tree.setAttribute at he
  split at he
  · cases he
  · split at he <;> cases he
    exact size_modifyElement ..

theorem size_of_setAttributeNs {el : NodeId} {ns qualified value : String}
    (he : t.setAttributeNs el ns qualified value = .ok t') : t'.size = t.size := by
  unfold Tree.setAttributeNs at he
  split at he
  · cases he
  · split at he <;> cases he
    exact size_modifyElement ..

/-- A way of making a node that fails alike on every tree, or adds one node of the same
content, neither a document nor an element with attributes, to every tree. -/
def MakesNode (f : Tree → Except TreeError (Tree × NodeId)) : Prop :=
  (∃ e, ∀ t, f t = .error e) ∨
    ∃ c o, c.type ≠ .document ∧ (∀ e, c = .element e → e.attrs = []) ∧
      ∀ t, f t = .ok (t.alloc c o)

theorem makesNode_createElement (doc : NodeId) (name : String) :
    MakesNode (·.createElement doc name) := by
  by_cases hq : Name.isQName name
  · refine .inr ⟨.element ⟨none, name, none, []⟩, some doc, by simp [Content.type],
      fun e he => ?_, fun t => by simp [Tree.createElement, hq]⟩
    cases he
    rfl
  · exact .inl ⟨.invalidCharacter name, fun t => by simp [Tree.createElement, hq]⟩

theorem makesNode_createElementNs (doc : NodeId) (ns qualified : String) :
    MakesNode (·.createElementNs doc ns qualified) := by
  cases hq : QName.parse? qualified with
  | none => exact .inl ⟨.invalidCharacter qualified, fun t => by simp [Tree.createElementNs, hq]⟩
  | some q =>
    refine .inr ⟨.element ⟨q.prefixName, q.localName, if ns.isEmpty then none else some ns, []⟩,
      some doc, by simp [Content.type], fun e he => ?_, fun t => by simp [Tree.createElementNs, hq]⟩
    cases he
    rfl

theorem makesNode_createCData (doc : NodeId) (data : String) :
    MakesNode (·.createCData doc data) := by
  by_cases hd : containsText data "]]>"
  · exact .inl ⟨.invalidCharacter data, fun t => by simp [Tree.createCData, hd]⟩
  · exact .inr ⟨.cdata data, some doc, by simp [Content.type], (fun e he => by cases he),
      fun t => by simp [Tree.createCData, hd]⟩

theorem makesNode_createInstruction (doc : NodeId) (target data : String) :
    MakesNode (·.createInstruction doc target data) := by
  by_cases hq : Name.isQName target
  · by_cases hd : containsText data "?>"
    · exact .inl ⟨.invalidCharacter data, fun t => by simp [Tree.createInstruction, hq, hd]⟩
    · exact .inr ⟨.instruction target data, some doc, by simp [Content.type],
        (fun e he => by cases he), fun t => by simp [Tree.createInstruction, hq, hd]⟩
  · exact .inl ⟨.invalidCharacter target, fun t => by simp [Tree.createInstruction, hq]⟩

end Tree

/-! ## Steps in step -/

namespace BuildM

open Markup.Tree

variable {k : Nat}

/-- Runs in step that returned the nodes `a` and `a + 1`. -/
def InStepAt (k : Nat) (a b : NodeId) (t u : Tree) : Prop :=
  b = a + 1 ∧ InStep k t u

/-- Runs in step that made the nodes `n` and `n + 1`, the last of each tree, after the
first `k` nodes. -/
def Fresh (k : Nat) (n n' : NodeId) (t u : Tree) : Prop :=
  n' = n + 1 ∧ 0 < n ∧ k ≤ n ∧ InStep (n + 1) t u

theorem rtriple_alloc {f : Tree → Tree × NodeId} {c : Content} {o : Option NodeId}
    (hc : c.type ≠ .document) (hattrs : ∀ e, c = .element e → e.attrs = [])
    (hf : ∀ t, f t = t.alloc c o) : RTriple (InStep k) (alloc f) (alloc f) (Fresh k) := by
  intro t u hs
  simp only [BuildM.alloc, hf]
  exact ⟨hs.shifted.alloc_snd c o, hs.shifted.pos, hs.size_ge, hs.alloc hc hattrs o⟩

theorem rtriple_make {f : Tree → Except TreeError (Tree × NodeId)} (hf : MakesNode f) :
    RTriple (InStep k) (make f) (make f) (Fresh k) := by
  intro t u hs
  rcases hf with ⟨e, he⟩ | ⟨c, o, hc, hattrs, hf⟩
  · simp only [BuildM.make, he]
    trivial
  · simp only [BuildM.make, hf]
    exact ⟨hs.shifted.alloc_snd c o, hs.shifted.pos, hs.size_ge, hs.alloc hc hattrs o⟩

/-- An edit run on trees in step that succeeds on both or neither, and that keeps a
well-formed tree well formed and its size as it is, keeps them in step. -/
theorem rtriple_edit {f g : Tree → Except TreeError Tree}
    (h : ∀ t u, InStep k t u → ShiftedEdit (f t) (g u) ∧
      ∀ t', f t = .ok t' → t'.WellFormed ∧ t'.size = t.size) :
    RTriple (InStep k) (edit f) (edit g) fun _ _ => InStep k := by
  intro t u hs
  obtain ⟨hfg, hf⟩ := h t u hs
  simp only [BuildM.edit]
  cases hft : f t <;> cases hgu : g u <;> rw [hft, hgu] at hfg
  · trivial
  · exact hfg.elim
  · exact hfg.elim
  · obtain ⟨hw, hsize⟩ := hf _ hft
    exact ⟨hfg, hw, hsize ▸ hs.size_ge⟩

theorem rtriple_appendChild {r c : NodeId} (hr0 : r ≠ 0) (hrk : r < k) (hc0 : c ≠ 0)
    (hck : c < k) :
    RTriple (InStep k) (edit (·.appendChild r c)) (edit (·.appendChild (r + 1) (c + 1)))
      fun _ _ => InStep k := by
  refine rtriple_edit fun t u hs => ?_
  have hr : r < t.size := Nat.lt_of_lt_of_le hrk hs.size_ge
  have hc : c < t.size := Nat.lt_of_lt_of_le hck hs.size_ge
  exact ⟨hs.shifted.appendChild hs.wellFormed hr0 hr hc0 hc, fun _ he =>
    ⟨hs.wellFormed.appendChild hr he, (appendChild_spliced hs.wellFormed hr he).size_eq⟩⟩

theorem rtriple_setAttribute (el : NodeId) (name value : String) :
    RTriple (InStep k) (edit (·.setAttribute el name value))
      (edit (·.setAttribute (el + 1) name value)) fun _ _ => InStep k :=
  rtriple_edit fun _ _ hs => ⟨hs.shifted.setAttribute el name value, fun _ he =>
    ⟨hs.wellFormed.setAttribute he, size_of_setAttribute he⟩⟩

theorem rtriple_setAttributeNs (el : NodeId) (ns qualified value : String) :
    RTriple (InStep k) (edit (·.setAttributeNs el ns qualified value))
      (edit (·.setAttributeNs (el + 1) ns qualified value)) fun _ _ => InStep k :=
  rtriple_edit fun _ _ hs => ⟨hs.shifted.setAttributeNs el ns qualified value, fun _ he =>
    ⟨hs.wellFormed.setAttributeNs he, size_of_setAttributeNs he⟩⟩

/-- Attaching a node under a reference, and the renumbered node under the renumbered
reference, returns the node now last there and its renumbering. -/
theorem rtriple_attach {r c : NodeId} (hr0 : r ≠ 0) (hrk : r < k) (hc0 : c ≠ 0) (hck : c < k) :
    RTriple (InStep k) (Mode.parent.attach c r) (Mode.parent.attach (c + 1) (r + 1))
      (InStepAt k) := by
  simp only [Mode.attach]
  refine (rtriple_appendChild hr0 hrk hc0 hck).bind fun _ _ => ?_
  refine (rtriple_read (Q := fun l l' t u => l' = l.map (· + 1) ∧ InStep k t u)
    fun t u hs => ⟨hs.shifted.lastChild r, hs⟩).bind fun l l' => ?_
  refine rtriple_pure fun t u ⟨hl, hs⟩ => ⟨?_, hs⟩
  subst hl
  cases l <;> rfl

/-- A node just made on both trees, attached under a reference and its renumbering. -/
theorem rtriple_attach_fresh {r n n' : NodeId} (hr0 : r ≠ 0) (hrk : r < k) :
    RTriple (Fresh k n n') (Mode.parent.attach n r) (Mode.parent.attach n' (r + 1))
      (InStepAt k) := by
  refine RTriple.of_pre (F := n' = n + 1 ∧ 0 < n ∧ k ≤ n) (fun _ _ h => ⟨h.1, h.2.1, h.2.2.1⟩)
    fun hF => ?_
  obtain ⟨hn, hpos, hk⟩ := hF
  subst hn
  exact (rtriple_attach hr0 (Nat.lt_succ_of_lt (Nat.lt_of_lt_of_le hrk hk)) hpos.ne'
    (Nat.lt_succ_self n)).mono (fun _ _ h => h.2.2.2) fun _ _ _ _ h => ⟨h.1, h.2.mono (Nat.le_succ_of_le hk)⟩

theorem rtriple_setAttrEntry (el : NodeId) (scope : Scope) (args : List Spec) (policy : Policy)
    (entry : String × Spec) :
    RTriple (InStep k) (setAttrEntry el scope args policy entry)
      (setAttrEntry (el + 1) scope args policy entry) fun _ _ => InStep k := by
  obtain ⟨key, value⟩ := entry
  unfold setAttrEntry
  dsimp only
  cases QName.parse? key with
  | none => exact rtriple_pure fun _ _ h => h
  | some q =>
    cases Spec.flatten value args with
    | none => exact rtriple_pure fun _ _ h => h
    | some text =>
      dsimp only
      split
      · exact rtriple_setAttributeNs el xmlnsNamespace key text
      · cases q.prefixName with
        | none => exact rtriple_setAttribute el key text
        | some ap =>
          dsimp only
          cases scope.namespaceOf? ap with
          | some uri => exact rtriple_setAttributeNs el uri key text
          | none =>
            dsimp only
            split
            · exact rtriple_throw_bind
            · exact rtriple_setAttribute el key text

theorem rtriple_forM_setAttrEntry (el : NodeId) (scope : Scope) (args : List Spec)
    (policy : Policy) (entries : List (String × Spec)) :
    RTriple (InStep k) (entries.forM (setAttrEntry el scope args policy))
      (entries.forM (setAttrEntry (el + 1) scope args policy)) fun _ _ => InStep k := by
  induction entries with
  | nil => exact rtriple_pure fun _ _ h => h
  | cons e es ih =>
    simp only [List.forM]
    exact (rtriple_setAttrEntry el scope args policy e).bind fun _ _ => ih

/-- An element is made alike on trees in step, as their next nodes, with the same scope for
its children. -/
theorem rtriple_materialize (doc : NodeId) (tag : TagName) (scope : Scope)
    (attrs : List (String × Spec)) (args : List Spec) (policy : Policy) :
    RTriple (InStep k) (materialize doc tag scope attrs args policy)
      (materialize doc tag scope attrs args policy)
      fun r r' t u => r'.2 = r.2 ∧ Fresh k r.1 r'.1 t u := by
  have hrest : ∀ (σ : Scope) el el', RTriple (Fresh k el el')
      ((Name.sortEntries attrs).forM (setAttrEntry el σ args policy) >>= fun _ => pure (el, σ))
      ((Name.sortEntries attrs).forM (setAttrEntry el' σ args policy) >>= fun _ => pure (el', σ))
      fun r r' t u => r'.2 = r.2 ∧ Fresh k r.1 r'.1 t u := by
    intro σ el el'
    refine RTriple.of_pre (F := el' = el + 1 ∧ 0 < el ∧ k ≤ el) (fun _ _ h => ⟨h.1, h.2.1, h.2.2.1⟩)
      fun hF => ?_
    obtain ⟨hel, hpos, hk⟩ := hF
    subst hel
    refine ((rtriple_forM_setAttrEntry el σ args policy _).mono (fun _ _ h => h.2.2.2)
      fun _ _ _ _ h => h).bind fun _ _ => ?_
    exact rtriple_pure fun _ _ h => ⟨rfl, rfl, hpos, hk, h⟩
  unfold materialize
  refine rtriple_check.bind fun r r' => RTriple.of_fact fun hr => ?_
  subst hr
  obtain ⟨qualified, pfx⟩ := r
  dsimp only
  split
  · exact (rtriple_make (makesNode_createElementNs ..)).bind (hrest _)
  · split
    · exact rtriple_throw_bind
    · exact (rtriple_make (makesNode_createElement ..)).bind (hrest _)

section

variable {r : NodeId} (d : NodeId) (hr0 : r ≠ 0) (hrk : r < k)
include hr0 hrk

/-- An element placed under a reference and its renumbering: the element, the node at the
attachment point and the element's scope correspond. -/
theorem rtriple_placeElement (scope : Scope) (tag : TagName) (attrs : List (String × Spec))
    (args : List Spec) (policy : Policy) :
    RTriple (InStep k) (placeElement (Position.inside r d) scope tag attrs args policy)
      (placeElement (Position.inside (r + 1) d) scope tag attrs args policy)
      fun x x' t u => x'.2.2 = x.2.2 ∧ x'.2.1 = x.2.1 + 1 ∧ Fresh k x.1 x'.1 t u := by
  unfold placeElement
  refine (rtriple_materialize d tag scope attrs args policy).bind fun m m' => ?_
  obtain ⟨el, inner⟩ := m
  obtain ⟨el', inner'⟩ := m'
  refine RTriple.of_pre (F := inner' = inner ∧ el' = el + 1 ∧ 0 < el ∧ k ≤ el)
    (fun _ _ h => ⟨h.1, h.2.1, h.2.2.1, h.2.2.2.1⟩) fun hF => ?_
  obtain ⟨hi, hel, hpos, hk⟩ := hF
  subst hi hel
  refine ((rtriple_attach hr0 (Nat.lt_succ_of_lt (Nat.lt_of_lt_of_le hrk hk)) hpos.ne'
    (Nat.lt_succ_self el)).mono (fun _ _ h => h.2.2.2.2) fun _ _ _ _ h => h).bind fun a a' => ?_
  refine RTriple.of_pre (F := a' = a + 1) (fun _ _ h => h.1) fun ha => ?_
  subst ha
  exact rtriple_pure fun _ _ h => ⟨rfl, rfl, rfl, hpos, hk, h.2⟩

theorem rtriple_buildText (text : String) :
    RTriple (InStep k) (buildText (Position.inside r d) text)
      (buildText (Position.inside (r + 1) d) text) (InStepAt k) :=
  (rtriple_alloc (c := .text text) (o := some d) (by simp [Content.type]) (fun _ he => by cases he)
    fun _ => rfl).bind fun _ _ => rtriple_attach_fresh hr0 hrk

/-- A comment, CDATA section or processing instruction is made alike from the same children
and attributes, and attached under a reference and its renumbering. -/
theorem rtriple_buildReserved (kind : Reserved) (children : List Spec)
    (attrs : List (String × Spec)) (args : List Spec) :
    RTriple (InStep k) (buildReserved (Position.inside r d) kind children attrs args)
      (buildReserved (Position.inside (r + 1) d) kind children attrs args) (InStepAt k) := by
  unfold buildReserved
  cases kind with
  | comment =>
    exact (rtriple_alloc (by simp [Content.type]) (fun _ he => by cases he) fun _ => rfl).bind
      fun _ _ => rtriple_attach_fresh hr0 hrk
  | cdata =>
    exact (rtriple_make (makesNode_createCData ..)).bind fun _ _ => rtriple_attach_fresh hr0 hrk
  | instruction =>
    cases children with
    | nil => exact rtriple_throw_bind
    | cons first rest =>
      dsimp only
      split
      · exact rtriple_throw_bind
      · exact (rtriple_make (makesNode_createInstruction ..)).bind
          fun _ _ => rtriple_attach_fresh hr0 hrk
  | doctype => exact rtriple_throw_bind

end

/-- Once an element is placed in step, its children are built in step under it: none
returns the attachment points, more are built as a list. -/
theorem rtriple_placed {xs : List Spec} {f : NodeId → Scope → Spec → List Spec → BuildM NodeId}
    (h : ∀ el inner c cs, xs = c :: cs → 0 < el →
      RTriple (InStep (el + 1)) (f el inner c cs) (f (el + 1) inner c cs) (InStepAt (el + 1)))
    (x x' : NodeId × NodeId × Scope) :
    RTriple (fun t u => x'.2.2 = x.2.2 ∧ x'.2.1 = x.2.1 + 1 ∧ Fresh k x.1 x'.1 t u)
      (match xs with
        | [] => pure x.2.1
        | c :: cs => f x.1 x.2.2 c cs)
      (match xs with
        | [] => pure x'.2.1
        | c :: cs => f x'.1 x'.2.2 c cs) (InStepAt k) := by
  obtain ⟨el, a, inner⟩ := x
  obtain ⟨el', a', inner'⟩ := x'
  refine RTriple.of_pre (F := inner = inner' ∧ a' = a + 1 ∧ el' = el + 1 ∧ 0 < el ∧ k ≤ el)
    (fun _ _ h => ⟨h.1.symm, h.2.1, h.2.2.1, h.2.2.2.1, h.2.2.2.2.1⟩)
    fun hF => ?_
  obtain ⟨hi, ha, hel, hpos, hk⟩ := hF
  subst hi ha hel
  have hk' : k ≤ el + 1 := Nat.le_succ_of_le hk
  cases xs with
  | nil => exact rtriple_pure fun _ _ h => ⟨rfl, h.2.2.2.2.2.mono hk'⟩
  | cons c cs =>
    exact (h el inner c cs rfl hpos).mono (fun _ _ h => h.2.2.2.2.2)
      fun _ _ _ _ h => ⟨h.1, h.2.mono hk'⟩

/-- A spec read from JSON built under a node other than node 0, and under its renumbering in
the renumbered tree: both builds fail, or both succeed, the second returning the renumbering
of what the first returns and the trees staying in step. -/
theorem buildSpec_shift (policy : Policy) (args : List Spec) (fuel : Nat) {r : NodeId}
    (d : NodeId) (hr0 : r ≠ 0) (scope : Scope) {s : Spec} (hs : s.Plain) (hrk : r < k) :
    RTriple (InStep k) (buildSpec policy args fuel (Position.inside r d) scope s)
      (buildSpec policy args fuel (Position.inside (r + 1) d) scope s) (InStepAt k) := by
  -- one induction over the build; the renumbered build is taken apart along with it
  refine buildSpec.induct policy args
    (fun fuel pos scope s => ∀ r d, pos = Position.inside r d → r ≠ 0 → s.Plain → ∀ k, r < k →
      RTriple (InStep k) (buildSpec policy args fuel pos scope s)
        (buildSpec policy args fuel (Position.inside (r + 1) d) scope s) (InStepAt k))
    (fun fuel pos scope es => ∀ r d, pos = Position.inside r d → r ≠ 0 →
      (Spec.mapping es).Plain → ∀ k, r < k →
      RTriple (InStep k) (buildObject policy args fuel pos scope es)
        (buildObject policy args fuel (Position.inside (r + 1) d) scope es) (InStepAt k))
    (fun fuel pos scope xs => ∀ r d, pos = Position.inside r d → r ≠ 0 → (∀ x ∈ xs, x.Plain) →
      ∀ k, r < k →
      RTriple (InStep k) (buildList policy args fuel pos scope xs)
        (buildList policy args fuel (Position.inside (r + 1) d) scope xs) (InStepAt k))
    (fun fuel pos scope xs => ∀ r d, pos = Position.inside r d → r ≠ 0 → (∀ x ∈ xs, x.Plain) →
      ∀ k, r < k →
      RTriple (InStep k) (buildItems policy args fuel pos scope xs)
        (buildItems policy args fuel (Position.inside (r + 1) d) scope xs) fun _ _ => InStep k)
    ?null ?list ?stop ?call ?node ?empty ?object ?bool ?number ?string ?failed ?declaration
    ?shorthand ?unparsed ?unmarked ?reserved ?bare ?element ?named ?nil ?single ?batch ?none
    ?some fuel (Position.inside r d) scope s r d rfl hr0 hs k hrk
  case null =>
    intro fuel pos scope r d hpos _ _ k _
    subst hpos
    simp only [buildSpec]
    exact rtriple_pure fun _ _ h => ⟨rfl, h⟩
  case list =>
    intro fuel pos scope items ih r d hpos hr0 hs k hrk
    simp only [buildSpec]
    exact ih r d hpos hr0 hs.items k hrk
  case stop =>
    intro pos scope body r d _ _ hs
    cases hs
  case call =>
    intro pos scope body fuel _ r d _ _ hs
    cases hs
  case node =>
    intro fuel pos scope n r d _ _ hs
    cases hs
  case empty =>
    intro fuel pos scope r d hpos hr0 _ k hrk
    subst hpos
    simp only [buildSpec]
    exact rtriple_buildText d hr0 hrk ""
  case object =>
    intro fuel pos scope e es ih r d hpos hr0 hs k hrk
    simp only [buildSpec]
    exact ih r d hpos hr0 hs k hrk
  case bool =>
    intro fuel pos scope b r d hpos hr0 _ k hrk
    subst hpos
    simp only [buildSpec]
    exact rtriple_buildText d hr0 hrk _
  case number =>
    intro fuel pos scope n r d hpos hr0 _ k hrk
    subst hpos
    simp only [buildSpec]
    exact rtriple_buildText d hr0 hrk _
  case string =>
    intro fuel pos scope str r d hpos hr0 _ k hrk
    subst hpos
    simp only [buildSpec]
    exact rtriple_buildText d hr0 hrk _
  case failed =>
    intro fuel pos scope entries e hfind r d hpos _ _ k _
    subst hpos
    rw [buildObject_of_error hfind, buildObject_of_error hfind]
    exact rtriple_throw
  case declaration =>
    intro fuel pos scope key value q hq hdecl hfind _ _ r d hpos _ _ k _
    subst hpos
    have hmissing : ∀ q', QName.parse? key = some q' → q'.isDeclaration = true := by
      intro q' hq'
      rw [hq, Option.some.injEq] at hq'
      exact hq' ▸ hdecl
    rw [buildObject_of_missing hfind hmissing, buildObject_of_missing hfind hmissing]
    exact rtriple_throw
  case shorthand =>
    intro fuel pos scope key value q hq hdecl hfind hmem ih r d hpos hr0 hs k hrk
    subst hpos
    have hdecl' : q.isDeclaration = false := Bool.eq_false_iff.2 hdecl
    have hv := (hs.of_mem hmem).children
    rw [buildObject_of_shorthand hfind hq hdecl', buildObject_of_shorthand hfind hq hdecl']
    exact (rtriple_placeElement d hr0 hrk scope (.qualified key) [] args policy).bind
      (rtriple_placed (f := fun el inner c cs =>
          buildList policy args fuel (Position.inside el d) inner (c :: cs))
        fun el inner c cs hc hpos => ih el inner c cs hc el d rfl hpos.ne' (hc ▸ hv) (el + 1)
          (Nat.lt_succ_self el))
  case unparsed =>
    intro fuel pos scope key value hq hfind _ r d hpos _ _ k _
    subst hpos
    have hmissing : ∀ q', QName.parse? key = some q' → q'.isDeclaration = true := by
      intro q' hq'
      rw [hq] at hq'
      cases hq'
    rw [buildObject_of_missing hfind hmissing, buildObject_of_missing hfind hmissing]
    exact rtriple_throw
  case unmarked =>
    intro fuel pos scope entries hfind hne r d hpos _ _ k _
    subst hpos
    rw [buildObject_of_unmarked hfind (fun k v he => hne k v he),
      buildObject_of_unmarked hfind (fun k v he => hne k v he)]
    exact rtriple_throw
  case reserved =>
    intro fuel pos scope entries key value kind hfind _ r d hpos hr0 _ k hrk
    subst hpos
    rw [buildObject_of_reserved hfind, buildObject_of_reserved hfind]
    exact rtriple_buildReserved d hr0 hrk kind _ _ args
  case bare =>
    intro fuel pos scope entries key value hc hfind _ r d hpos _ _ k _
    subst hpos
    rw [buildObject_of_bare hfind hc, buildObject_of_bare hfind hc]
    exact rtriple_throw
  case element =>
    intro fuel pos scope entries key value c cs hc hfind hmem ih r d hpos hr0 hs k hrk
    subst hpos
    have hv := (hs.of_mem hmem).children
    rw [hc] at hv
    rw [buildObject_of_element hfind hc, buildObject_of_element hfind hc]
    refine rtriple_check.bind fun tag tag' => RTriple.of_fact fun htag => ?_
    subst htag
    exact (rtriple_placeElement d hr0 hrk scope tag _ args policy).bind
      (rtriple_placed (f := fun el inner c cs =>
          buildList policy args fuel (Position.inside el d) inner (c :: cs))
        fun el inner e es he hpos => ih el inner e es he el d rfl hpos.ne'
          (he ▸ fun x hx => hv x (List.mem_cons_of_mem _ hx)) (el + 1) (Nat.lt_succ_self el))
  case named =>
    intro fuel pos scope entries key value name hfind hmem ih r d hpos hr0 hs k hrk
    subst hpos
    have hv := (hs.of_mem hmem).children
    rw [buildObject_of_named hfind, buildObject_of_named hfind]
    exact (rtriple_placeElement d hr0 hrk scope (.qualified name) _ args policy).bind
      (rtriple_placed (f := fun el inner c cs =>
          buildList policy args fuel (Position.inside el d) inner (c :: cs))
        fun el inner c cs hc hpos => ih el inner c cs hc el d rfl hpos.ne' (hc ▸ hv) (el + 1)
          (Nat.lt_succ_self el))
  case nil =>
    intro fuel pos scope r d hpos _ _ k _
    subst hpos
    simp only [buildList]
    exact rtriple_pure fun _ _ h => ⟨rfl, h⟩
  case single =>
    intro fuel pos scope x ih r d hpos hr0 hs k hrk
    simp only [buildList]
    exact ih r d hpos hr0 (hs x (List.mem_singleton_self x)) k hrk
  case batch =>
    intro fuel pos scope x y rest ihx ihrest r d hpos hr0 hs k hrk
    subst hpos
    simp only [buildList]
    refine (rtriple_alloc (c := .fragment) (o := some d) (by simp [Content.type])
      (fun _ he => by cases he) fun _ => rfl).bind fun f f' => ?_
    refine RTriple.of_pre (F := f' = f + 1 ∧ 0 < f ∧ k ≤ f)
      (fun _ _ h => ⟨h.1, h.2.1, h.2.2.1⟩) fun hF => ?_
    obtain ⟨hf, hpos, hk⟩ := hF
    subst hf
    -- the items are built in step under the new fragment, which is then attached, if filled
    have hk' : k ≤ f + 1 := Nat.le_succ_of_le hk
    have hrf : r < f + 1 := Nat.lt_succ_of_lt (Nat.lt_of_lt_of_le hrk hk)
    refine ((ihx f f d rfl hpos.ne' (hs x List.mem_cons_self) (f + 1) (Nat.lt_succ_self f)).mono
      (fun _ _ h => h.2.2.2) fun _ _ _ _ h => h).bind fun _ _ => ?_
    refine ((ihrest f f d rfl hpos.ne' (fun z hz => hs z (List.mem_cons_of_mem _ hz)) (f + 1)
      (Nat.lt_succ_self f)).mono (fun _ _ h => h.2) fun _ _ _ _ h => h).bind fun _ _ => ?_
    refine (rtriple_read (Q := fun l l' t u => l' = l.map (· + 1) ∧ InStep (f + 1) t u)
      fun t u hs => ⟨hs.shifted.firstChild f, hs⟩).bind fun l l' => ?_
    refine RTriple.of_pre (F := l' = l.map (· + 1)) (fun _ _ h => h.1) fun hl => ?_
    subst hl
    cases l with
    | none => exact rtriple_pure fun _ _ h => ⟨rfl, h.2.mono hk'⟩
    | some _ =>
      exact (rtriple_attach hr0 hrf hpos.ne' (Nat.lt_succ_self f)).mono (fun _ _ h => h.2)
        fun _ _ _ _ h => ⟨h.1, h.2.mono hk'⟩
  case none =>
    intro fuel pos scope r d hpos _ _ k _
    subst hpos
    simp only [buildItems]
    exact rtriple_pure fun _ _ h => h
  case some =>
    intro fuel pos scope x rest ihx ihrest r d hpos hr0 hs k hrk
    simp only [buildItems]
    exact (ihx r d hpos hr0 (hs x List.mem_cons_self) k hrk).bind fun _ _ =>
      (ihrest r d hpos hr0 (fun z hz => hs z (List.mem_cons_of_mem _ hz)) k hrk).mono
        (fun _ _ h => h.2) fun _ _ _ _ h => h

theorem buildList_shift (policy : Policy) (args : List Spec) (fuel : Nat) {r : NodeId}
    (d : NodeId) (hr0 : r ≠ 0) (scope : Scope) {xs : List Spec} (hs : ∀ x ∈ xs, x.Plain)
    (hrk : r < k) :
    RTriple (InStep k) (buildList policy args fuel (Position.inside r d) scope xs)
      (buildList policy args fuel (Position.inside (r + 1) d) scope xs) (InStepAt k) := by
  have h := buildSpec_shift policy args fuel d hr0 scope (Spec.Plain.list hs) hrk
  simp only [buildSpec] at h
  exact h

theorem buildItems_shift (policy : Policy) (args : List Spec) (fuel : Nat) {r : NodeId}
    (d : NodeId) (hr0 : r ≠ 0) (scope : Scope) {xs : List Spec} (hs : ∀ x ∈ xs, x.Plain)
    (hrk : r < k) :
    RTriple (InStep k) (buildItems policy args fuel (Position.inside r d) scope xs)
      (buildItems policy args fuel (Position.inside (r + 1) d) scope xs) fun _ _ => InStep k := by
  induction xs with
  | nil =>
    simp only [buildItems]
    exact rtriple_pure fun _ _ h => h
  | cons x rest ih =>
    simp only [buildItems]
    exact (buildSpec_shift policy args fuel d hr0 scope (hs x List.mem_cons_self) hrk).bind
      fun _ _ => (ih fun z hz => hs z (List.mem_cons_of_mem _ hz)).mono (fun _ _ h => h.2)
        fun _ _ _ _ h => h

end BuildM

end Markup
