import Markup.Proofs.Tree.Reachable
import Markup.Proofs.Render.Namespaces

/-!
# Names as trees store them

A qualified name is written `p:l` or `l`, and `QName.parse?` accepts exactly these texts for
`NCName`s `p` and `l` and reads the parts back. So the written form of a tag name, of an
attribute name and of a name that building resolves is inverted by the parser that making an
element and setting an attribute in a namespace use (`QName.parse?_inverts_written`). The keys
`xmlns` and `xmlns:p` are the namespace declarations, and the prefix a key declares is read off
its parsed name.

The tree operations keep the names they store in that form: each way of making an element
gives it no prefix or an `NCName` one, and setting an attribute in a namespace stores the parts
of the parsed name (`Reachable.namesRead`). Setting an attribute by qualified name stores the
whole name as the local part, with no prefix and no namespace. The writer tells a declaration by
these parts, gathering by the name: the two tests agree on every record in a namespace, and on a
plain record only when its name is not `xmlns:p` (`Reachable.declaration_tests`).
-/

namespace Markup

namespace QName

variable {s : String} {q : QName}

/-- The texts the parser accepts: an `NCName`, or two joined by a colon. -/
theorem isQName_iff :
    Name.isQName s = true ↔ Name.isNCName s = true ∨
      ∃ p l, Name.isNCName p = true ∧ Name.isNCName l = true ∧ s = p ++ ":" ++ l := by
  unfold Name.isQName
  constructor
  · intro h
    obtain ⟨⟨pre, loc⟩, hq⟩ := Option.isSome_iff_exists.1 h
    obtain ⟨hv, rfl⟩ := parse?_eq_some_iff.1 hq
    cases pre with
    | none => exact .inl (by simpa [QName.toString] using hv)
    | some p =>
      simp only [Option.all_some, Bool.and_eq_true] at hv
      exact .inr ⟨p, loc, hv.1, hv.2, rfl⟩
  · rintro (h | ⟨p, l, hp, hl, rfl⟩)
    · exact Option.isSome_iff_exists.2 ⟨⟨none, s⟩, parse?_eq_some_iff.2 ⟨by simpa using h, rfl⟩⟩
    · exact Option.isSome_iff_exists.2 ⟨⟨some p, l⟩, parse?_eq_some_iff.2 ⟨by simp [hp, hl], rfl⟩⟩

/-- Both written forms read back as their parts. -/
theorem parse?_written {p l : String} (hp : Name.isNCName p = true) (hl : Name.isNCName l = true) :
    parse? (p ++ ":" ++ l) = some ⟨some p, l⟩ ∧ parse? l = some ⟨none, l⟩ :=
  ⟨parse?_eq_some_iff.2 ⟨by simp [hp, hl], rfl⟩, parse?_eq_some_iff.2 ⟨by simp [hl], rfl⟩⟩

theorem parse?_toString_of_parse? (h : parse? s = some q) : parse? q.toString = some q := by
  rw [(parse?_eq_some_iff.1 h).2]
  exact h

theorem prefix_isNCName_of_parse? (h : parse? s = some q) {p : String} (hp : q.prefixName = some p) :
    Name.isNCName p = true := by
  have hv := (parse?_eq_some_iff.1 h).1
  simp only [hp, Option.all_some, Bool.and_eq_true] at hv
  exact hv.1

end QName

theorem Element.tagName_eq_toString (e : Element) :
    e.tagName = QName.toString ⟨e.prefixName, e.localName⟩ := by
  obtain ⟨pre, loc, ns, attrs⟩ := e
  cases pre <;> rfl

/-- The qualified name that resolving a tag name gives is read back, with the prefix the
resolution reports. -/
theorem TagName.parse?_resolve {tn : TagName} {qn pre : String} (h : tn.resolve = .ok (qn, pre)) :
    ∃ q, QName.parse? qn = some q ∧ q.prefixOrEmpty = pre := by
  cases tn with
  | qualified name =>
    cases hq : QName.parse? name with
    | none => simp [TagName.resolve, hq] at h
    | some q =>
      simp only [TagName.resolve, hq, Except.ok.injEq, Prod.mk.injEq] at h
      obtain ⟨rfl, rfl⟩ := h
      exact ⟨q, hq, rfl⟩
  | pair p l =>
    simp only [TagName.resolve] at h
    split at h
    · cases h
    · next hvalid =>
      simp only [Except.ok.injEq, Prod.mk.injEq] at h
      obtain ⟨rfl, rfl⟩ := h
      simp only [Bool.or_eq_true, Bool.not_eq_true', not_or, Bool.not_eq_false] at hvalid
      obtain ⟨hl, hp⟩ := hvalid
      -- an empty prefix writes the local part alone
      by_cases he : (p.getD "").isEmpty = true
      · refine ⟨⟨none, l⟩, ?_, (String.isEmpty_iff.1 he).symm⟩
        rw [if_pos he]
        exact (QName.parse?_written (p := "x") (by decide) hl).2
      · have hp' : Name.isNCName (p.getD "") = true := by simpa [he] using hp
        refine ⟨⟨some (p.getD ""), l⟩, ?_, rfl⟩
        rw [if_neg he]
        exact (QName.parse?_written hp' hl).1

namespace QName

/-- Reading a qualified name inverts writing one. The parser succeeds exactly on the texts of
the qualified-name grammar, an `NCName` or two joined by one colon; what it reads has `NCName`
parts and is written back as the text it was read from; both written forms of any two
`NCName`s read back as their parts. So the names that attributes, elements and resolved tag
names are written with are read back by the parser. -/
theorem parse?_inverts_written :
    (∀ s, (∃ q, parse? s = some q) ↔ Name.isQName s = true) ∧
    (∀ s, Name.isQName s = true ↔ Name.isNCName s = true ∨
      ∃ p l, Name.isNCName p = true ∧ Name.isNCName l = true ∧ s = p ++ ":" ++ l) ∧
    (∀ s q, parse? s = some q →
      q.prefixName.all Name.isNCName = true ∧ Name.isNCName q.localName = true ∧ q.toString = s) ∧
    (∀ p l, Name.isNCName p = true → Name.isNCName l = true →
      parse? (p ++ ":" ++ l) = some ⟨some p, l⟩ ∧ parse? l = some ⟨none, l⟩) ∧
    (∀ a : Attr, (a.prefixName.all Name.isNCName && Name.isNCName a.localName) = true →
      parse? a.name = some ⟨a.prefixName, a.localName⟩) ∧
    (∀ e : Element, (e.prefixName.all Name.isNCName && Name.isNCName e.localName) = true →
      parse? e.tagName = some ⟨e.prefixName, e.localName⟩) ∧
    (∀ (tn : TagName) qn pre, tn.resolve = .ok (qn, pre) →
      ∃ q, parse? qn = some q ∧ q.prefixOrEmpty = pre) := by
  refine ⟨fun s => ?_, fun s => isQName_iff, fun s q h => ?_, fun p l hp hl => parse?_written hp hl,
    fun a ha => ?_, fun e he => ?_, fun tn qn pre h => TagName.parse?_resolve h⟩
  · unfold Name.isQName
    exact Option.isSome_iff_exists.symm
  · obtain ⟨hv, hs⟩ := parse?_eq_some_iff.1 h
    simp only [Bool.and_eq_true] at hv
    exact ⟨hv.1, hv.2, hs⟩
  · rw [Attr.name_eq_toString]
    exact parse?_eq_some_iff.2 ⟨ha, rfl⟩
  · rw [Element.tagName_eq_toString]
    exact parse?_eq_some_iff.2 ⟨he, rfl⟩

theorem parse?_svg_rect :
    (Name.isNCName "svg" = true ∧ Name.isNCName "rect" = true) ∧
      parse? ("svg" ++ ":" ++ "rect") = some ⟨some "svg", "rect"⟩ ∧ parse? "rect" = some ⟨none, "rect"⟩ :=
  ⟨⟨by decide, by decide⟩, parse?_inverts_written.2.2.2.1 "svg" "rect" (by decide) (by decide)⟩

end QName

/-! ## Declaration keys -/

namespace Name

variable {k : String}

/-- A key declares a prefix exactly when it parses as `xmlns` or `xmlns:p`. -/
theorem declares?_isSome_iff :
    (declares? k).isSome ↔ ∃ q, QName.parse? k = some q ∧ q.isDeclaration = true := by
  constructor
  · intro h
    obtain ⟨d, hd⟩ := Option.isSome_iff_exists.1 h
    rcases eq_of_declares? hd with ⟨hk, -⟩ | ⟨hk, hdn⟩
    · have hk : k = "xmlns" := String.toList_inj.1 (hk.trans (by decide))
      refine ⟨⟨none, "xmlns"⟩, ?_, rfl⟩
      rw [hk]
      exact (QName.parse?_written (p := "x") (l := "xmlns") (by decide) (by decide)).2
    · have hk : k = "xmlns" ++ ":" ++ d := String.toList_inj.1 (by simp [hk])
      refine ⟨⟨some "xmlns", d⟩, ?_, rfl⟩
      rw [hk]
      exact (QName.parse?_written (by decide) hdn).1
  · rintro ⟨q, hq, hdecl⟩
    rw [QName.declares?_of_parse? hq, if_pos hdecl]
    rfl

/-- The prefix a declaration key declares: the local part of `xmlns:p`, and the empty prefix
for `xmlns`. -/
theorem declares?_eq_of_parse? {q : QName} (hq : QName.parse? k = some q)
    (hdecl : q.isDeclaration = true) :
    declares? k = some (if q.prefixName = some "xmlns" then q.localName else "") := by
  rw [QName.declares?_of_parse? hq, if_pos hdecl]
  obtain ⟨pre, loc⟩ := q
  cases pre with
  | none => rfl
  | some p =>
    simp only [QName.isDeclaration, beq_iff_eq] at hdecl
    simp [hdecl]

end Name

/-! ## Element records along runs -/

namespace Tree

variable {C : Element → Prop} {t t' : Tree}

theorem Elements.empty : Elements C Tree.empty := by
  intro m e he
  rw [element?_empty] at he
  cases he

/-- A node made by an operation that may fail, each record it may make satisfying `C`. -/
theorem Elements.make (h : Elements C t) {x : Except TreeError (Tree × NodeId)}
    (hx : ∀ r, x = .ok r → ∃ c o, (∀ e, c = .element e → C e) ∧ r = t.alloc c o) :
    Elements C (t.settle (x.map Prod.fst)) := by
  refine settle_map_of h fun r hr => ?_
  obtain ⟨c, o, hc, rfl⟩ := hx r hr
  exact h.alloc o hc

theorem Elements.modifyElement (h : Elements C t) {el : NodeId} {f : Element → Element}
    (hf : ∀ e, t.element? el = some e → C (f e)) : Elements C (t.modifyElement el f) := by
  intro m e he
  rw [element?_modifyElement] at he
  split at he
  · next hm =>
    subst hm
    obtain ⟨e₀, he₀, rfl⟩ := Option.map_eq_some_iff.1 he
    exact hf e₀ he₀
  · exact h m e he

section Run

variable (hmake : ∀ name, Name.isQName name = true → C ⟨none, name, none, []⟩)
  (hmakeNs : ∀ (qualified : String) (q : QName) (uri : Option String),
    QName.parse? qualified = some q → C ⟨q.prefixName, q.localName, uri, []⟩)
  (hset : ∀ {t t' : Tree} {el : NodeId} {name value : String}, Elements C t →
    t.setAttribute el name value = .ok t' → Elements C t')
  (hsetNs : ∀ {t t' : Tree} {el : NodeId} {ns qualified value : String}, Elements C t →
    t.setAttributeNs el ns qualified value = .ok t' → Elements C t')

include hmake hmakeNs hset hsetNs

/-- What one operation does to element records: making an element adds a record as the
operation builds it, the two setters change a record, and every other operation makes a node
that is no element, moves links or copies records. -/
theorem Elements.apply (h : Elements C t) (op : Op) : Elements C (op.apply t) := by
  cases op with
  | createDocument => exact h.alloc _ fun _ he => by cases he
  | createFragment => exact h.alloc _ fun _ he => by cases he
  | createText => exact h.alloc _ fun _ he => by cases he
  | createComment => exact h.alloc _ fun _ he => by cases he
  | createElement doc name =>
    refine h.make fun r hr => ?_
    unfold Tree.createElement at hr
    split at hr
    · next hq =>
      cases hr
      exact ⟨_, _, fun e he => by cases he; exact hmake name hq, rfl⟩
    · cases hr
  | createElementNs doc ns qualified =>
    refine h.make fun r hr => ?_
    unfold Tree.createElementNs at hr
    split at hr
    · next q hq =>
      cases hr
      exact ⟨_, _, fun e he => by cases he; exact hmakeNs qualified q _ hq, rfl⟩
    · cases hr
  | createCData doc data =>
    refine h.make fun r hr => ?_
    unfold Tree.createCData at hr
    split at hr
    · cases hr
    · cases hr
      exact ⟨_, _, fun e he => (by cases he), rfl⟩
  | createInstruction doc target data =>
    refine h.make fun r hr => ?_
    unfold Tree.createInstruction at hr
    split at hr
    · cases hr
    · split at hr
      · cases hr
      · cases hr
        exact ⟨_, _, fun e he => (by cases he), rfl⟩
  | appendChild p c =>
    exact settle_of h fun _ he => h.of_element?_eq (element?_eq_of_content_eq (content_of_appendChild he))
  | insertBefore p c ref =>
    exact settle_of h fun _ he => h.of_element?_eq (element?_eq_of_content_eq (content_of_insertBefore he))
  | replaceChild p new old =>
    exact settle_of h fun _ he => h.of_element?_eq (element?_eq_of_content_eq (content_of_replaceChild he))
  | cloneNode n deep => exact h.cloneWithin n deep _
  | setAttribute el name value => exact settle_of h fun _ he => hset h he
  | setAttributeNs el ns qualified value => exact settle_of h fun _ he => hsetNs h he

/-- A property of element records that every way of making an element gives and the two
attribute setters keep holds of every element of every reachable tree. -/
theorem Reachable.elements (hr : t.Reachable) : Elements C t := by
  induction hr with
  | empty => exact Elements.empty
  | step op _ _ ih => exact ih.apply hmake hmakeNs hset hsetNs op

end Run

end Tree

/-! ## The names a tree stores -/

/-- The names of an element record in the form the tree operations store them: the prefix,
where there is one, is an `NCName`, and an attribute in a namespace reads back as its parts. -/
structure Element.NamesRead (e : Element) : Prop where
  prefix_ncname : ∀ p, e.prefixName = some p → Name.isNCName p = true
  attr_parse : ∀ a ∈ e.attrs, a.ns.isSome → QName.parse? a.name = some ⟨a.prefixName, a.localName⟩

namespace Tree

variable {t t' : Tree}

/-- Setting an attribute by name changes a value or adds a record in no namespace. -/
theorem Elements.setAttribute_namesRead (h : Elements Element.NamesRead t) {el : NodeId}
    {name value : String} (he : t.setAttribute el name value = .ok t') :
    Elements Element.NamesRead t' := by
  unfold Tree.setAttribute at he
  split at he
  · cases he
  · split at he
    · cases he
    · next e hel =>
      cases he
      refine h.modifyElement fun e' he' => ?_
      rw [hel] at he'
      cases he'
      obtain ⟨hpre, hattr⟩ := h _ _ hel
      refine ⟨hpre, fun a ha hns => ?_⟩
      dsimp only at ha
      split at ha
      · rcases mem_updateFirst ha with ha | ⟨b, hb, -, rfl⟩
        · exact hattr a ha hns
        · exact hattr b hb hns
      · rcases List.mem_append.1 ha with ha | ha
        · exact hattr a ha hns
        · rw [List.mem_singleton] at ha
          subst ha
          cases hns

/-- Setting an attribute in a namespace stores the parts of the parsed name. -/
theorem Elements.setAttributeNs_namesRead (h : Elements Element.NamesRead t) {el : NodeId}
    {ns qualified value : String} (he : t.setAttributeNs el ns qualified value = .ok t') :
    Elements Element.NamesRead t' := by
  unfold Tree.setAttributeNs at he
  split at he
  · cases he
  · next q hq =>
    have hread : QName.parse? (QName.toString ⟨q.prefixName, q.localName⟩) =
        some ⟨q.prefixName, q.localName⟩ := QName.parse?_toString_of_parse? hq
    split at he
    · cases he
    · next e hel =>
      cases he
      refine h.modifyElement fun e' he' => ?_
      rw [hel] at he'
      cases he'
      obtain ⟨hpre, hattr⟩ := h _ _ hel
      refine ⟨hpre, fun a ha hns => ?_⟩
      dsimp only at ha
      split at ha
      · rcases mem_updateFirst ha with ha | ⟨b, -, hsame, rfl⟩
        · exact hattr a ha hns
        · -- the record it changes has the local part of the parsed name
          simp only [Bool.and_eq_true, beq_iff_eq] at hsame
          rw [Attr.name_eq_toString]
          simpa [hsame.2] using hread
      · rcases List.mem_append.1 ha with ha | ha
        · exact hattr a ha hns
        · rw [List.mem_singleton] at ha
          subst ha
          rw [Attr.name_eq_toString]
          exact hread

/-- Every reachable tree stores names as read: element prefixes are `NCName`s and the records
in a namespace read back as their parts. -/
theorem Reachable.namesRead (hr : t.Reachable) : Elements Element.NamesRead t :=
  Reachable.elements (fun _ _ => ⟨fun _ hp => (by cases hp), fun _ ha => (by cases ha)⟩)
    (fun _ _ _ hq => ⟨fun _ hp => QName.prefix_isNCName_of_parse? hq hp, fun _ ha => (by cases ha)⟩)
    (fun h he => h.setAttribute_namesRead he) (fun h he => h.setAttributeNs_namesRead he) hr

/-- On a reachable tree, the writer's declaration test agrees with the test of the name for
every record in a namespace, and counts a record in no namespace only when it is named `xmlns`. -/
theorem Reachable.declaredBy_attr (hr : t.Reachable) {n : NodeId} {e : Element} {a : Attr}
    (he : t.element? n = some e) (ha : a ∈ e.attrs) :
    (a.ns.isSome → Xml.declaredBy a = Name.declares? a.name) ∧
      (a.ns = none → Xml.declaredBy a = if a.name = "xmlns" then some "" else none) := by
  refine ⟨fun hns => ?_, fun hns => ?_⟩
  · exact (Xml.declares?_name ((hr.namesRead n e he).attr_parse a ha hns)).symm
  · have hpre : a.prefixName = none := hr.wellFormed.plain_attrs he ha hns
    simp [Xml.declaredBy, Attr.name, hpre]

/-- So a record the writer counts as a declaration of `q` bears the name that declares `q`. -/
theorem Reachable.declares?_of_declaredBy (hr : t.Reachable) {n : NodeId} {e : Element} {a : Attr}
    (he : t.element? n = some e) (ha : a ∈ e.attrs) {q : String} (hq : Xml.declaredBy a = some q) :
    Name.declares? a.name = some q := by
  cases hns : a.ns with
  | some u => rw [← (hr.declaredBy_attr he ha).1 (by simp [hns]), hq]
  | none =>
    have h := (hr.declaredBy_attr he ha).2 hns
    rw [hq] at h
    split at h
    · next hname =>
      cases h
      rw [hname]
      decide
    · cases h

/-- The two tests for a namespace declaration. On keys, the declaration test, the prefix it
reads and the parsed name agree: a key is a declaration exactly when it declares a prefix,
exactly when it parses as `xmlns` or `xmlns:p`, and then it declares the local part after
`xmlns:` and the empty prefix for `xmlns`. On the records of a reachable tree, the writer's
test, which reads the parts of a record, agrees with the test of its name for every record in a
namespace; a record in no namespace counts for the writer only when it is named `xmlns`, though
its name may be `xmlns:p`. -/
theorem Reachable.declaration_tests (hr : t.Reachable) :
    (∀ k, (Name.isDeclaration k = true ↔ (Name.declares? k).isSome) ∧
      ((Name.declares? k).isSome ↔ ∃ q, QName.parse? k = some q ∧ q.isDeclaration = true) ∧
      ∀ q, QName.parse? k = some q → q.isDeclaration = true →
        Name.declares? k = some (if q.prefixName = some "xmlns" then q.localName else "")) ∧
    ∀ n e a, t.element? n = some e → a ∈ e.attrs →
      (a.ns.isSome → Xml.declaredBy a = Name.declares? a.name) ∧
      (a.ns = none → Xml.declaredBy a = if a.name = "xmlns" then some "" else none) := by
  exact ⟨fun k => ⟨Iff.rfl, Name.declares?_isSome_iff, fun q hq hd => Name.declares?_eq_of_parse? hq hd⟩,
    fun _ _ _ he ha => hr.declaredBy_attr he ha⟩

theorem Reachable.declaration_tests_element :
    let T := (Op.setAttribute 1 "xmlns:p" "urn:x").apply ((Op.createElement 0 "a").apply
      (Op.createDocument.apply Tree.empty))
    T.Reachable ∧
    ((∀ k, (Name.isDeclaration k = true ↔ (Name.declares? k).isSome) ∧
      ((Name.declares? k).isSome ↔ ∃ q, QName.parse? k = some q ∧ q.isDeclaration = true) ∧
      ∀ q, QName.parse? k = some q → q.isDeclaration = true →
        Name.declares? k = some (if q.prefixName = some "xmlns" then q.localName else "")) ∧
    ∀ n e a, T.element? n = some e → a ∈ e.attrs →
      (a.ns.isSome → Xml.declaredBy a = Name.declares? a.name) ∧
      (a.ns = none → Xml.declaredBy a = if a.name = "xmlns" then some "" else none)) := by
  intro T
  refine ⟨?r, Reachable.declaration_tests ?r⟩
  exact .step _ (.step _ (.step _ .empty trivial) trivial) trivial

/-- A declaration set by qualified name is a plain record that the writer does not count as a
declaration, though its name declares `p` and gathering binds `p` from it: the start tag then
declares `p` a second time, for the namespace of a record that uses it. -/
theorem declaredBy_misses_plain_declaration :
    let T := (Op.setAttributeNs 1 "urn:z" "p:b" "v").apply ((Op.setAttribute 1 "xmlns:p" "urn:x").apply
      ((Op.createElement 0 "a").apply (Op.createDocument.apply Tree.empty)))
    T.Reachable ∧
    T.element? 1 =
      some ⟨none, "a", none, [⟨none, "xmlns:p", none, "urn:x"⟩, ⟨some "p", "b", some "urn:z", "v"⟩]⟩ ∧
    Xml.declaredBy ⟨none, "xmlns:p", none, "urn:x"⟩ = none ∧ Name.declares? "xmlns:p" = some "p" ∧
    (Scope.gather T 1).bindings = [("p", "urn:x")] ∧
    Xml.serialize T 1 {} = "<a xmlns:p=\"urn:z\" xmlns:p=\"urn:x\" p:b=\"v\"/>" := by
  intro T
  exact ⟨.step _ (.step _ (.step _ (.step _ .empty trivial) trivial) trivial) trivial, by decide, rfl,
    by decide, by decide +kernel, by decide +kernel⟩

end Tree

end Markup
