import Markup.Proofs.Name.Qualified
import Markup.Namespace.Scope
import Markup.Xml.Writer
import Mathlib.Data.List.Nodup

/-!
# The start tags the writer produces

The writer is a fold over pieces: start, empty-element and end tags, markup and text
(`writeNode_eq_foldl`). Reading the pieces in order with a stack of the declarations written
on the start tags still open gives each tag with the declarations in force at it, nearest
first (`tagScopes`). A prefix resolves to its nearest declaration, and `xml` and `xmlns` fall
back to their predefined namespaces.

The writer declares each binding an element uses unless the element's own tag declares the
prefix or the declarations in force already give the URI. The output is then faithful to the
tree for every element that is `Coherent`: its names read back as their parts, each prefix it
uses stands for one URI, its own declaration of the prefix gives that URI, and it declares
neither `xml` nor `xmlns` (`faithful_of_coherent`). The writer never compares an element's own
declaration with the URI the element uses; that condition is the one a tree must bring.
-/

namespace Markup.Xml

/-- A start tag as written: the node it opens, its name and its attributes in order. -/
structure StartTag where
  node : NodeId
  name : String
  attrs : List (String × String)

/-- A unit of written XML. -/
inductive Piece where
  /-- A start tag, followed later by the node's content and its end tag. -/
  | start (tag : StartTag)
  /-- An empty-element tag. -/
  | empty (tag : StartTag)
  | close (name : String)
  /-- A comment or instruction: it starts on a new line when indenting. -/
  | markup (text : String)
  /-- Text or a CDATA section, written in place. -/
  | inline (text : String)

/-- Writes one piece. -/
def Piece.write (pr : Printer) : Piece → Printer
  | .start tag => pr.start ("<" ++ tagBody tag.name tag.attrs ++ ">")
  | .empty tag => pr.tag ("<" ++ tagBody tag.name tag.attrs ++ "/>")
  | .close name => pr.close ("</" ++ name ++ ">")
  | .markup text => pr.tag text
  | .inline text => pr.inline text

/-- The start tag an element is written with where the scope is in force: the declarations
it lacks, then its own attributes. -/
def startTag (scope : List (String × String)) (n : NodeId) (e : Element) : StartTag :=
  ⟨n, e.tagName, (missing scope e).1.map (fun d => (declarationName d.1, d.2)) ++
    e.attrs.map fun a => (a.name, a.value)⟩

/-- The pieces written for a node and its descendants, at most `fuel` levels deep. -/
def pieces (t : Tree) : Nat → List (String × String) → NodeId → List Piece
  | 0, _, _ => []
  | fuel + 1, scope, n =>
    match (t.get n).content with
    | .document | .fragment => (t.children n).flatMap (pieces t fuel scope)
    | .element e =>
      match t.children n with
      | [] => [.empty (startTag scope n e)]
      | cs => .start (startTag scope n e) :: cs.flatMap (pieces t fuel (missing scope e).2) ++
          [.close e.tagName]
    | .text d => [.inline (escape d)]
    | .cdata d => [.inline ("<![CDATA[" ++ d ++ "]]>")]
    | .comment d => [.markup ("<!--" ++ d ++ "-->")]
    | .instruction target d =>
      [.markup ("<?" ++ (if d.isEmpty then target else target ++ " " ++ d) ++ "?>")]

/-- Writing a node is writing its pieces in order. -/
theorem writeNode_eq_foldl (t : Tree) (fuel : Nat) (scope : List (String × String)) (pr : Printer)
    (n : NodeId) : writeNode t fuel scope pr n = (pieces t fuel scope n).foldl Piece.write pr := by
  induction fuel generalizing scope pr n with
  | zero => rfl
  | succ fuel ih =>
    have hfold : ∀ (s : List (String × String)) (cs : List NodeId) (pr : Printer),
        cs.foldl (writeNode t fuel s) pr = (cs.flatMap (pieces t fuel s)).foldl Piece.write pr := by
      intro s cs pr
      rw [List.foldl_flatMap]
      exact congrArg (fun f => cs.foldl f pr) (funext fun pr => funext fun c => ih s pr c)
    cases hc : (t.get n).content with
    | document => simp only [writeNode, pieces, hc]; exact hfold _ _ _
    | fragment => simp only [writeNode, pieces, hc]; exact hfold _ _ _
    | element e =>
      simp only [writeNode, pieces, hc]
      cases hcs : t.children n with
      | nil => rfl
      | cons c cs => simp [hfold, startTag, Piece.write]
    | text d => simp [writeNode, pieces, hc, Piece.write]
    | cdata d => simp [writeNode, pieces, hc, Piece.write]
    | comment d => simp [writeNode, pieces, hc, Piece.write]
    | instruction target d => simp [writeNode, pieces, hc, Piece.write]

/-- The printer a serialization starts with: empty, or holding the XML declaration. -/
def startPrinter (t : Tree) (n : NodeId) (opts : Options) : Printer :=
  let pr : Printer := ⟨"", opts.indent, 0, false⟩
  if opts.declaration && t.nodeType n == .document then pr.tag declaration else pr

theorem serialize_eq_foldl (t : Tree) (n : NodeId) (opts : Options) :
    serialize t n opts = ((pieces t (t.size + 1) [] n).foldl Piece.write (startPrinter t n opts)).out := by
  simp only [serialize, startPrinter, writeNode_eq_foldl]

/-! ## The declarations in force at a tag -/

/-- The declarations an attribute list makes, in order: `xmlns` declares the default
namespace and `xmlns:p` the prefix `p`. -/
def declarations (attrs : List (String × String)) : List (String × String) :=
  attrs.filterMap fun a => (Name.declares? a.1).map fun p => (p, a.2)

/-- The declarations of the start tags still open after a piece, innermost first. -/
def Piece.push (stack : List (List (String × String))) : Piece → List (List (String × String))
  | .start tag => declarations tag.attrs :: stack
  | .close _ => stack.tail
  | _ => stack

/-- A start or empty-element tag, with the declarations in force at it. -/
def Piece.inScope (stack : List (List (String × String))) :
    Piece → List (StartTag × List (String × String))
  | .start tag | .empty tag => [(tag, declarations tag.attrs ++ stack.flatten)]
  | _ => []

/-- Every tag among the pieces with the declarations in force at it: its own, then those of
the start tags around it, nearest first. -/
def tagScopes : List (List (String × String)) → List Piece →
    List (StartTag × List (String × String))
  | _, [] => []
  | stack, x :: xs => x.inScope stack ++ tagScopes (x.push stack) xs

theorem tagScopes_append (stack : List (List (String × String))) (xs ys : List Piece) :
    tagScopes stack (xs ++ ys) = tagScopes stack xs ++ tagScopes (xs.foldl Piece.push stack) ys := by
  induction xs generalizing stack with
  | nil => rfl
  | cons x xs ih => simp [tagScopes, ih]

/-- The pieces of a node close every tag they open. -/
theorem foldl_push_pieces (t : Tree) (fuel : Nat) (scope : List (String × String)) (n : NodeId)
    (stack : List (List (String × String))) : (pieces t fuel scope n).foldl Piece.push stack = stack := by
  induction fuel generalizing scope n stack with
  | zero => rfl
  | succ fuel ih =>
    have hkids : ∀ s (cs : List NodeId) stack,
        (cs.flatMap (pieces t fuel s)).foldl Piece.push stack = stack := by
      intro s cs
      induction cs with
      | nil => simp
      | cons c cs ihc => intro stack; simp [ih, ihc]
    cases hc : (t.get n).content with
    | element e =>
      simp only [pieces, hc]
      cases t.children n with
      | nil => rfl
      | cons c cs =>
        simp only [List.cons_append, List.foldl_cons, List.foldl_append, Piece.push, hkids]
        rfl
    | document | fragment => simp [pieces, hc, hkids]
    | _ => simp [pieces, hc, Piece.push]

theorem mem_tagScopes_flatMap {stack : List (List (String × String))} {f : NodeId → List Piece}
    {cs : List NodeId} (hf : ∀ c ∈ cs, (f c).foldl Piece.push stack = stack) {x}
    (hx : x ∈ tagScopes stack (cs.flatMap f)) : ∃ c ∈ cs, x ∈ tagScopes stack (f c) := by
  induction cs with
  | nil => simp [tagScopes] at hx
  | cons c cs ih =>
    rw [List.flatMap_cons, tagScopes_append, hf c (List.mem_cons_self ..), List.mem_append] at hx
    rcases hx with hx | hx
    · exact ⟨c, List.mem_cons_self .., hx⟩
    · obtain ⟨c', hc', hx'⟩ := ih (fun c hc => hf c (List.mem_cons_of_mem _ hc)) hx
      exact ⟨c', List.mem_cons_of_mem _ hc', hx'⟩

/-! ## Looking up a scope -/

variable {L : List (String × String)} {p u : String}

theorem lookup_append (A B : List (String × String)) (p : String) :
    lookup (A ++ B) p = (lookup A p).or (lookup B p) := by
  simp only [lookup, List.find?_append]
  cases A.find? (·.1 == p) <;> rfl

theorem lookup_eq_none_iff : lookup L p = none ↔ p ∉ L.map Prod.fst := by
  simp only [lookup, Option.map_eq_none_iff, List.find?_eq_none, beq_iff_eq, List.mem_map]
  exact ⟨fun h ⟨x, hx, hp⟩ => h x hx hp, fun h x hx hp => h ⟨x, hx, hp⟩⟩

theorem mem_of_lookup_eq_some (h : lookup L p = some u) : (p, u) ∈ L := by
  simp only [lookup, Option.map_eq_some_iff] at h
  obtain ⟨x, hx, rfl⟩ := h
  have := List.find?_some hx
  simp only [beq_iff_eq] at this
  rw [← this]
  exact List.mem_of_find?_eq_some hx

theorem lookup_eq_some_of_mem (hnd : (L.map Prod.fst).Nodup) (h : (p, u) ∈ L) :
    lookup L p = some u := by
  induction L with
  | nil => cases h
  | cons x L ih =>
    simp only [List.map_cons, List.nodup_cons] at hnd
    rcases List.mem_cons.1 h with rfl | h
    · simp [lookup]
    · have hx : x.1 ≠ p := fun hx => hnd.1 (hx ▸ List.mem_map_of_mem h)
      have hb : (x.1 == p) = false := by simpa using hx
      simp only [lookup, List.find?_cons, hb] at ih ⊢
      exact ih hnd.2 h

theorem lookup_eq_of_perm {L' : List (String × String)} (hnd : (L.map Prod.fst).Nodup)
    (hp : L.Perm L') (p : String) : lookup L p = lookup L' p := by
  have hnd' : (L'.map Prod.fst).Nodup := (hp.map Prod.fst).nodup_iff.1 hnd
  cases h : lookup L p with
  | none =>
    symm
    rw [lookup_eq_none_iff] at h ⊢
    exact fun hm => h ((hp.map Prod.fst).mem_iff.2 hm)
  | some u => exact (lookup_eq_some_of_mem hnd' (hp.mem_iff.1 (mem_of_lookup_eq_some h))).symm

/-- What the declaration loop of a start tag does: the bindings `new` it adds go over the
tag's declarations, none of them is for `xml` or declared twice, and every binding it goes
through is for `xml`, declared on the tag, or already in force outside. -/
theorem missingFrom_eq (outer : List (String × String)) :
    ∀ (us here acc : List (String × String)), (here.map Prod.fst).Nodup → ∃ new,
      missingFrom outer us here acc = ((new ++ acc).reverse, new ++ here ++ outer) ∧
      (∀ x ∈ new, x ∈ us ∧ x.1 ≠ "xml") ∧ ((new ++ here).map Prod.fst).Nodup ∧
      ∀ x ∈ us, x.1 = "xml" ∨ x.1 ∈ (new ++ here).map Prod.fst ∨ (lookup outer x.1).getD "" = x.2
  | [], here, acc, hnd => ⟨[], by simp [missingFrom], by simp, by simpa using hnd, by simp⟩
  | (p, u) :: rest, here, acc, hnd => by
    unfold missingFrom
    split
    · next hskip =>
      obtain ⟨new, heq, hnew, hnd', hcover⟩ := missingFrom_eq outer rest here acc hnd
      refine ⟨new, heq, fun x hx => ⟨List.mem_cons_of_mem _ (hnew x hx).1, (hnew x hx).2⟩, hnd', ?_⟩
      rintro x (_ | ⟨_, hx⟩)
      · simp only [Bool.or_eq_true, beq_iff_eq, List.any_eq_true] at hskip
        rcases hskip with (hx | ⟨y, hy, hyp⟩) | hl
        · exact .inl hx
        · have hp : p ∈ (new ++ here).map Prod.fst :=
            List.mem_map.2 ⟨y, List.mem_append_right _ hy, by simpa using hyp⟩
          exact .inr (.inl hp)
        · by_cases hp : p ∈ here.map Prod.fst
          · exact .inr (.inl (by rw [List.map_append]; exact List.mem_append_right _ hp))
          · have hnone : lookup here p = none := lookup_eq_none_iff.2 hp
            rw [lookup_append, hnone, Option.none_or] at hl
            exact .inr (.inr hl)
      · exact hcover x hx
    · next hadd =>
      simp only [Bool.or_eq_true, beq_iff_eq, List.any_eq_true, not_or, not_exists, not_and]
        at hadd
      have hp : p ∉ here.map Prod.fst := by
        simp only [List.mem_map, not_exists, not_and]
        exact fun y hy hyp => hadd.1.2 y hy (by simp [hyp])
      obtain ⟨new, heq, hnew, hnd', hcover⟩ :=
        missingFrom_eq outer rest ((p, u) :: here) ((p, u) :: acc)
          (by rw [List.map_cons, List.nodup_cons]; exact ⟨hp, hnd⟩)
      refine ⟨new ++ [(p, u)], by simpa using heq, ?_, by simpa using hnd', ?_⟩
      · intro x hx
        rcases List.mem_append.1 hx with hx | hx
        · exact ⟨List.mem_cons_of_mem _ (hnew x hx).1, (hnew x hx).2⟩
        · rw [List.mem_singleton] at hx
          subst hx
          exact ⟨List.mem_cons_self .., hadd.1.1⟩
      · rintro x (_ | ⟨_, hx⟩)
        · exact .inr (.inl (by simp))
        · simpa using hcover x hx

/-! ## Declaration keys -/

theorem declares?_declarationName {p : String} (hp : p = "" ∨ Name.isNCName p = true) :
    Name.declares? (declarationName p) = some p := by
  rcases hp with rfl | hp
  · decide
  · have hne : p.isEmpty = false := by
      cases h : p.isEmpty
      · rfl
      · simp [String.isEmpty_iff.1 h, Name.isNCName, Name.isNCNameChars] at hp
    have hparse : QName.parse? ("xmlns" ++ ":" ++ p) = some ⟨some "xmlns", p⟩ :=
      QName.parse?_eq_some_iff.2 ⟨by simp [hp]; decide, rfl⟩
    rw [declarationName, hne, if_neg Bool.false_ne_true, show "xmlns:" ++ p = "xmlns" ++ ":" ++ p by
      simp, QName.declares?_of_parse? hparse]
    rfl

theorem eq_declarationName_of_declares? {k p : String} (h : Name.declares? k = some p) :
    k = declarationName p := by
  rcases Name.eq_of_declares? h with ⟨hk, rfl⟩ | ⟨hk, hp⟩
  · exact String.toList_inj.1 (hk.trans (by decide))
  · have hne : p.isEmpty = false := by
      cases h : p.isEmpty
      · rfl
      · simp [String.isEmpty_iff.1 h, Name.isNCNameChars] at hp
    rw [declarationName, hne, if_neg Bool.false_ne_true]
    apply String.toList_inj.1
    rw [hk]
    simp

theorem valid_of_declares? {k p : String} (h : Name.declares? k = some p) :
    p = "" ∨ Name.isNCName p = true := by
  rcases Name.eq_of_declares? h with ⟨-, rfl⟩ | ⟨-, hp⟩
  · exact .inl rfl
  · exact .inr hp

/-- An attribute whose name reads back as its parts declares what its name says. -/
theorem declares?_name {a : Attr} (h : QName.parse? a.name = some ⟨a.prefixName, a.localName⟩) :
    Name.declares? a.name = declaredBy a := by
  rw [QName.declares?_of_parse? h]
  obtain ⟨pre, loc, ns, v⟩ := a
  cases pre <;> simp [QName.isDeclaration, declaredBy]

theorem isNCName_prefix_of_parse? {s p l : String} (h : QName.parse? s = some ⟨some p, l⟩) :
    Name.isNCName p = true := by
  have := (QName.parse?_eq_some_iff.1 h).1
  simp only [Option.all_some, Bool.and_eq_true] at this
  exact this.1

/-! ## The bindings a tag needs -/

theorem mem_uses {e : Element} {x : String × String} :
    x ∈ uses e ↔ ((e.prefixName = none ∨ e.ns.isSome) ∧ x = (e.prefixName.getD "", e.ns.getD "")) ∨
      ∃ a ∈ e.attrs, ∃ p u, a.prefixName = some p ∧ p ≠ "xmlns" ∧ a.ns = some u ∧ x = (p, u) := by
  unfold uses
  rw [List.mem_append, List.mem_filterMap]
  refine or_congr ?_ (exists_congr fun a => and_congr_right fun _ => ?_)
  · cases e.prefixName <;> cases e.ns <;> simp
  · cases a.prefixName <;> cases a.ns <;> simp [@eq_comm _ _ x]

/-- The bindings an element's own declarations make, in attribute order. -/
def ownDeclarations (e : Element) : List (String × String) :=
  e.attrs.filterMap fun a => (declaredBy a).map fun p => (p, a.value)

theorem mem_ownDeclarations {e : Element} {x : String × String} :
    x ∈ ownDeclarations e ↔ ∃ a ∈ e.attrs, declaredBy a = some x.1 ∧ a.value = x.2 := by
  simp only [ownDeclarations, List.mem_filterMap, Option.map_eq_some_iff]
  constructor
  · rintro ⟨a, ha, p, hp, rfl⟩
    exact ⟨a, ha, hp, rfl⟩
  · rintro ⟨a, ha, hp, hv⟩
    exact ⟨a, ha, x.1, hp, by rw [hv]⟩

/-! ## Faithful start tags -/

/-- The namespace of a prefix where the declarations `ds` are in force, nearest first: the
nearest declaration of the prefix, else the predefined namespace of `xml` or `xmlns`. -/
def resolveIn (ds : List (String × String)) (p : String) : Option String :=
  match lookup ds p with
  | some u => some u
  | none => if p = "xml" then some xmlNamespace else if p = "xmlns" then some xmlnsNamespace else none

/-- The namespace of an element name with this prefix: a prefix resolves as above, and an
unprefixed name takes the default namespace, an empty declaration or none meaning none. -/
def elementNamespace (ds : List (String × String)) : Option String → Option String
  | some p => resolveIn ds p
  | none => (lookup ds "").filter (!·.isEmpty)

/-- A prefix other than `xml` and `xmlns` has a declaration in force. -/
def Declared (ds : List (String × String)) (p : String) : Prop :=
  p ≠ "xml" → p ≠ "xmlns" → (lookup ds p).isSome

/-- A written start tag agrees with the element it opens, where the declarations `ds` are in
force: its attribute names are distinct, it is written with the element's name and
attributes and otherwise only declarations, every prefix it uses is declared, and each
name's prefix resolves to the namespace stored with it. -/
structure Faithful (ds : List (String × String)) (tag : StartTag) (e : Element) : Prop where
  names_nodup : (tag.attrs.map Prod.fst).Nodup
  name_parse : QName.parse? tag.name = some ⟨e.prefixName, e.localName⟩
  element_declared : ∀ p, e.prefixName = some p → Declared ds p
  element_ns : elementNamespace ds e.prefixName = e.ns
  attr_written : ∀ a ∈ e.attrs,
    (a.name, a.value) ∈ tag.attrs ∧ QName.parse? a.name = some ⟨a.prefixName, a.localName⟩
  attr_declared : ∀ a ∈ e.attrs, ∀ p, a.prefixName = some p → Declared ds p
  attr_ns : ∀ a ∈ e.attrs, ∀ p, a.prefixName = some p → resolveIn ds p = a.ns
  others_declare : ∀ x ∈ tag.attrs,
    (∃ a ∈ e.attrs, x = (a.name, a.value)) ∨ (Name.declares? x.1).isSome

/-- What the writer needs of an element to write it faithfully: its names read back as their
parts, each prefix it uses has one URI, which its own declaration of the prefix gives too,
`xml` is bound to the XML namespace, and it declares neither `xml` nor `xmlns`. -/
structure Coherent (e : Element) : Prop where
  names_nodup : (e.attrs.map Attr.name).Nodup
  tag_parse : QName.parse? e.tagName = some ⟨e.prefixName, e.localName⟩
  attr_parse : ∀ a ∈ e.attrs, QName.parse? a.name = some ⟨a.prefixName, a.localName⟩
  prefix_ns : e.prefixName = none ∨ e.ns.isSome
  prefix_ne_xmlns : e.prefixName ≠ some "xmlns"
  ns_ne_empty : e.ns ≠ some ""
  attr_ns : ∀ a ∈ e.attrs, ∀ p, a.prefixName = some p →
    ∃ u, a.ns = some u ∧ u ≠ "" ∧ (p = "xmlns" → u = xmlnsNamespace)
  uses_unique : ∀ x ∈ uses e, ∀ y ∈ uses e, x.1 = y.1 → x.2 = y.2
  uses_xml : ∀ x ∈ uses e, x.1 = "xml" → x.2 = xmlNamespace
  uses_declared : ∀ x ∈ uses e, ∀ a ∈ e.attrs, declaredBy a = some x.1 → a.value = x.2
  no_reserved : ∀ a ∈ e.attrs, declaredBy a ≠ some "xml" ∧ declaredBy a ≠ some "xmlns"

/-- The writer's scope says what the declarations of the open start tags say, and none of
them binds `xml` or `xmlns`. -/
structure ScopeAgrees (scope : List (String × String)) (stack : List (List (String × String))) :
    Prop where
  lookup_eq : ∀ p, lookup scope p = lookup stack.flatten p
  xml : lookup scope "xml" = none
  xmlns : lookup scope "xmlns" = none

namespace Coherent

variable {e : Element} {x : String × String} {scope : List (String × String)}

theorem declares?_attr (hco : Coherent e) {a : Attr} (ha : a ∈ e.attrs) :
    Name.declares? a.name = declaredBy a :=
  declares?_name (hco.attr_parse a ha)

theorem own_mem_uses (hco : Coherent e) : (e.prefixName.getD "", e.ns.getD "") ∈ uses e :=
  mem_uses.2 (.inl ⟨hco.prefix_ns, rfl⟩)

theorem uses_prefix (hco : Coherent e) (hx : x ∈ uses e) : x.1 = "" ∨ Name.isNCName x.1 = true := by
  rcases mem_uses.1 hx with ⟨-, rfl⟩ | ⟨a, ha, p, u, hp, -, -, rfl⟩
  · cases hpre : e.prefixName with
    | none => exact .inl rfl
    | some p => exact .inr (isNCName_prefix_of_parse? (hpre ▸ hco.tag_parse))
  · exact .inr (isNCName_prefix_of_parse? (hp ▸ hco.attr_parse a ha))

theorem uses_ne_empty (hco : Coherent e) (hx : x ∈ uses e) (hp : x.1 ≠ "") : x.2 ≠ "" := by
  rcases mem_uses.1 hx with ⟨hns, rfl⟩ | ⟨a, ha, p, u, hp', -, hu, rfl⟩
  · cases hpre : e.prefixName with
    | none => simp [hpre] at hp
    | some p =>
      rw [hpre] at hns
      obtain ⟨u, hu⟩ := Option.isSome_iff_exists.1 (hns.resolve_left (by simp))
      simpa [hu] using fun h : u = "" => hco.ns_ne_empty (h ▸ hu)
  · obtain ⟨v, hv, hne, -⟩ := hco.attr_ns a ha p hp'
    rw [hu] at hv
    cases hv
    exact hne

theorem uses_ne_xmlns (hco : Coherent e) (hx : x ∈ uses e) : x.1 ≠ "xmlns" := by
  rcases mem_uses.1 hx with ⟨-, rfl⟩ | ⟨a, ha, p, u, -, hp, -, rfl⟩
  · cases hpre : e.prefixName with
    | none => simp
    | some p => simpa using fun h : p = "xmlns" => hco.prefix_ne_xmlns (h ▸ hpre)
  · exact hp

theorem ownDeclarations_nodup (hco : Coherent e) : ((ownDeclarations e).map Prod.fst).Nodup := by
  have hkeys : (ownDeclarations e).map Prod.fst = (e.attrs.map Attr.name).filterMap Name.declares? := by
    rw [ownDeclarations, List.map_filterMap, List.filterMap_map]
    refine List.filterMap_congr fun a ha => ?_
    rw [Function.comp_apply, hco.declares?_attr ha]
    cases declaredBy a <;> rfl
  rw [hkeys]
  refine hco.names_nodup.filterMap fun k k' p hk hk' => ?_
  rw [eq_declarationName_of_declares? hk, eq_declarationName_of_declares? hk']

theorem not_mem_ownDeclarations_reserved (hco : Coherent e) {p : String}
    (hp : p = "xml" ∨ p = "xmlns") : p ∉ (ownDeclarations e).map Prod.fst := by
  simp only [List.mem_map, not_exists, not_and]
  intro y hy hyp
  obtain ⟨a, ha, hda, -⟩ := mem_ownDeclarations.1 hy
  rcases hp with rfl | rfl
  · exact (hco.no_reserved a ha).1 (hyp ▸ hda)
  · exact (hco.no_reserved a ha).2 (hyp ▸ hda)

/-- The writer's declaration loop over a coherent element, in terms of what it adds. -/
theorem missing_spec (hco : Coherent e) (scope : List (String × String)) :
    (missing scope e).2 = ((missing scope e).1.reverse ++ (ownDeclarations e).reverse) ++ scope ∧
    (∀ x ∈ (missing scope e).1, x ∈ uses e ∧ x.1 ≠ "xml") ∧
    (((missing scope e).1.reverse ++ (ownDeclarations e).reverse).map Prod.fst).Nodup ∧
    ∀ x ∈ uses e, x.1 = "xml" ∨
      x.1 ∈ ((missing scope e).1.reverse ++ (ownDeclarations e).reverse).map Prod.fst ∨
      (lookup scope x.1).getD "" = x.2 := by
  have hnd : ((ownDeclarations e).reverse.map Prod.fst).Nodup := by
    rw [List.map_reverse, List.nodup_reverse]
    exact hco.ownDeclarations_nodup
  obtain ⟨new, heq, hnew, hnd', hcover⟩ := missingFrom_eq scope (uses e) _ [] hnd
  have hm : missing scope e = (new.reverse, new ++ (ownDeclarations e).reverse ++ scope) := by
    simpa [missing, ownDeclarations] using heq
  rw [hm]
  refine ⟨by simp, fun x hx => hnew x (List.mem_reverse.1 hx), by simpa using hnd',
    fun x hx => by simpa using hcover x hx⟩

/-- A binding declared on the tag, added or the element's own, is the one the element uses. -/
theorem eq_of_mem_tag (hco : Coherent e) (hx : x ∈ uses e) {v : String}
    (hv : (x.1, v) ∈ (missing scope e).1.reverse ++ (ownDeclarations e).reverse) : v = x.2 := by
  rcases List.mem_append.1 hv with hm | hm
  · exact hco.uses_unique _ ((hco.missing_spec scope).2.1 _ (List.mem_reverse.1 hm)).1 x hx rfl
  · obtain ⟨a, ha, hda, hva⟩ := mem_ownDeclarations.1 (List.mem_reverse.1 hm)
    exact hva.symm.trans (hco.uses_declared x hx a ha hda)

/-- Every binding the element uses is in force for its children: with its URI, or, for an
empty URI, by having no declaration at all. -/
theorem lookup_missing_use (hco : Coherent e) (hx : x ∈ uses e) (hxml : x.1 ≠ "xml") :
    lookup (missing scope e).2 x.1 = some x.2 ∨
      (lookup (missing scope e).2 x.1 = none ∧ x.2 = "") := by
  obtain ⟨hsnd, -, -, hcover⟩ := hco.missing_spec scope
  rw [hsnd, lookup_append]
  by_cases hk : x.1 ∈ ((missing scope e).1.reverse ++ (ownDeclarations e).reverse).map Prod.fst
  · -- declared on the tag itself
    cases hl : lookup ((missing scope e).1.reverse ++ (ownDeclarations e).reverse) x.1 with
    | none => exact absurd hk (lookup_eq_none_iff.1 hl)
    | some v => exact .inl (by rw [hco.eq_of_mem_tag hx (mem_of_lookup_eq_some hl)]; rfl)
  · -- in force outside the tag
    rw [lookup_eq_none_iff.2 hk, Option.none_or]
    rcases hcover x hx with h | h | hout
    · exact absurd h hxml
    · exact absurd h hk
    · cases hs : lookup scope x.1 with
      | none => exact .inr ⟨rfl, by simpa [hs] using hout.symm⟩
      | some v => exact .inl (by simpa [hs] using hout)

/-- Nothing declares `xml` or `xmlns` for the element's children unless it did outside. -/
theorem lookup_missing_reserved (hco : Coherent e) {p : String} (hp : p = "xml" ∨ p = "xmlns")
    (hs : lookup scope p = none) : lookup (missing scope e).2 p = none := by
  obtain ⟨hsnd, hnew, -, -⟩ := hco.missing_spec scope
  rw [hsnd, lookup_append, hs, Option.or_none, lookup_eq_none_iff, List.map_append,
    List.mem_append, not_or]
  refine ⟨?_, by simpa using hco.not_mem_ownDeclarations_reserved hp⟩
  simp only [List.map_reverse, List.mem_reverse, List.mem_map, not_exists, not_and]
  intro y hy hyp
  rcases hp with rfl | rfl
  · exact (hnew y hy).2 hyp
  · exact hco.uses_ne_xmlns (hnew y hy).1 hyp

theorem declarations_startTag (hco : Coherent e) (n : NodeId) :
    declarations (startTag scope n e).attrs = (missing scope e).1 ++ ownDeclarations e := by
  rw [startTag, declarations, List.filterMap_append, List.filterMap_map, List.filterMap_map]
  congr 1
  · conv_rhs => rw [← List.filterMap_some (l := (missing scope e).1)]
    refine List.filterMap_congr fun x hx => ?_
    have hx' := ((hco.missing_spec scope).2.1 x hx).1
    simp [declares?_declarationName (hco.uses_prefix hx')]
  · refine List.filterMap_congr fun a ha => ?_
    simp [hco.declares?_attr ha]

/-- The declarations in force at the start tag are those the children are written in. -/
theorem lookup_startTag (hco : Coherent e) {stack : List (List (String × String))}
    (hs : ScopeAgrees scope stack) (n : NodeId) (p : String) :
    lookup (declarations (startTag scope n e).attrs ++ stack.flatten) p =
      lookup (missing scope e).2 p := by
  obtain ⟨hsnd, -, hnd, -⟩ := hco.missing_spec scope
  have hperm : ((missing scope e).1 ++ ownDeclarations e).Perm
      ((missing scope e).1.reverse ++ (ownDeclarations e).reverse) :=
    (List.reverse_perm _).symm.append (List.reverse_perm _).symm
  have hnd' := ((hperm.map Prod.fst).nodup_iff).2 hnd
  rw [hco.declarations_startTag, hsnd, lookup_append _ stack.flatten, lookup_append _ scope,
    lookup_eq_of_perm hnd' hperm, hs.lookup_eq]

theorem startTag_names_nodup (hco : Coherent e) (n : NodeId) :
    ((startTag scope n e).attrs.map Prod.fst).Nodup := by
  obtain ⟨-, hnew, hnd, -⟩ := hco.missing_spec scope
  rw [List.map_append, List.map_reverse, List.nodup_append] at hnd
  obtain ⟨hadded, -, hdisj⟩ := hnd
  rw [List.nodup_reverse] at hadded
  have hvalid : ∀ d ∈ (missing scope e).1, Name.declares? (declarationName d.1) = some d.1 :=
    fun d hd => declares?_declarationName (hco.uses_prefix (hnew d hd).1)
  simp only [startTag, List.map_append, List.map_map]
  rw [List.nodup_append]
  refine ⟨?_, by simpa [Function.comp_def] using hco.names_nodup, ?_⟩
  · -- the added declarations are for distinct prefixes, so their names are distinct
    rw [show (Prod.fst ∘ fun d : String × String => (declarationName d.1, d.2)) =
      declarationName ∘ Prod.fst from rfl, ← List.map_map]
    refine hadded.map_on fun p hp q hq hpq => ?_
    obtain ⟨d, hd, rfl⟩ := List.mem_map.1 hp
    obtain ⟨d', hd', rfl⟩ := List.mem_map.1 hq
    exact Option.some.inj ((hvalid d hd).symm.trans (hpq ▸ hvalid d' hd'))
  · -- an added declaration is for a prefix the element does not declare itself
    simp only [List.mem_map, Function.comp_apply]
    rintro _ ⟨d, hd, rfl⟩ _ ⟨a, ha, rfl⟩ hda
    have hown : (d.1, a.value) ∈ ownDeclarations e :=
      mem_ownDeclarations.2 ⟨a, ha, by rw [← hco.declares?_attr ha, ← hda, hvalid d hd], rfl⟩
    exact hdisj d.1 (List.mem_reverse.2 (List.mem_map.2 ⟨d, hd, rfl⟩)) d.1
      (List.mem_map.2 ⟨_, List.mem_reverse.2 hown, rfl⟩) rfl

/-- A prefix the element uses resolves, for its children, to the URI it uses it with. -/
theorem resolveIn_missing_use (hco : Coherent e) (hs : ScopeAgrees scope stack)
    (hx : x ∈ uses e) (hp : x.1 ≠ "") :
    resolveIn (missing scope e).2 x.1 = some x.2 ∧ Declared (missing scope e).2 x.1 := by
  by_cases hxml : x.1 = "xml"
  · rw [resolveIn, hxml, hco.lookup_missing_reserved (.inl rfl) hs.xml, hco.uses_xml x hx hxml]
    exact ⟨rfl, fun h => absurd rfl h⟩
  · rcases hco.lookup_missing_use hx hxml with hl | ⟨-, hu⟩
    · exact ⟨by rw [resolveIn, hl], fun _ _ => by rw [hl]; rfl⟩
    · exact absurd hu (hco.uses_ne_empty hx hp)

theorem faithful_startTag (hco : Coherent e) {stack : List (List (String × String))}
    (hs : ScopeAgrees scope stack) (n : NodeId) :
    Faithful (declarations (startTag scope n e).attrs ++ stack.flatten) (startTag scope n e) e := by
  have hl := hco.lookup_startTag hs n
  have hres : ∀ p, resolveIn (declarations (startTag scope n e).attrs ++ stack.flatten) p =
      resolveIn (missing scope e).2 p := fun p => by rw [resolveIn, resolveIn, hl]
  have hdecl : ∀ p, Declared (declarations (startTag scope n e).attrs ++ stack.flatten) p ↔
      Declared (missing scope e).2 p := fun p => by rw [Declared, Declared, hl]
  have hne : ∀ {s p l}, QName.parse? s = some ⟨some p, l⟩ → p ≠ "" := fun h hp => by
    have := isNCName_prefix_of_parse? h
    simp [hp, Name.isNCName, Name.isNCNameChars] at this
  refine ⟨hco.startTag_names_nodup n, hco.tag_parse, ?_, ?_, fun a ha => ⟨?_, hco.attr_parse a ha⟩,
    ?_, ?_, ?_⟩
  · intro p hp
    obtain ⟨hu, hd⟩ := hco.resolveIn_missing_use hs hco.own_mem_uses (by
      simpa [hp] using hne (hp ▸ hco.tag_parse))
    simpa [hp, hdecl] using hd
  · cases hpre : e.prefixName with
    | some p =>
      have hp : p ≠ "" := hne (hpre ▸ hco.tag_parse)
      obtain ⟨u, hu⟩ := Option.isSome_iff_exists.1 (hco.prefix_ns.resolve_left (by simp [hpre]))
      have := (hco.resolveIn_missing_use hs hco.own_mem_uses (by simpa [hpre] using hp)).1
      simp only [hpre, hu, Option.getD_some] at this
      rw [elementNamespace, hres, this, hu]
    | none =>
      have huse := hco.own_mem_uses
      simp only [hpre, Option.getD_none] at huse
      rw [elementNamespace, hl]
      rcases hco.lookup_missing_use huse (by simp) with h | ⟨h, hu⟩
      · rw [h]
        cases hns : e.ns with
        | none => rfl
        | some u =>
          have : u ≠ "" := fun hu => hco.ns_ne_empty (hu ▸ hns)
          simp [this]
      · rw [h]
        cases hns : e.ns with
        | none => rfl
        | some u =>
          have hu : u = "" := by simpa [hns] using hu
          exact absurd (hu ▸ hns) hco.ns_ne_empty
  · exact List.mem_append_right _ (List.mem_map.2 ⟨a, ha, rfl⟩)
  · intro a ha p hp
    obtain ⟨u, hu, hue, -⟩ := hco.attr_ns a ha p hp
    by_cases hx : p = "xmlns"
    · exact fun _ h => absurd hx h
    · have huse : (p, u) ∈ uses e := mem_uses.2 (.inr ⟨a, ha, p, u, hp, hx, hu, rfl⟩)
      exact (hdecl p).2 (hco.resolveIn_missing_use hs huse (hne (hp ▸ hco.attr_parse a ha))).2
  · intro a ha p hp
    obtain ⟨u, hu, hue, hxu⟩ := hco.attr_ns a ha p hp
    rw [hres, hu]
    by_cases hx : p = "xmlns"
    · subst hx
      rw [resolveIn, hco.lookup_missing_reserved (.inr rfl) hs.xmlns, hxu rfl]
      rfl
    · have huse : (p, u) ∈ uses e := mem_uses.2 (.inr ⟨a, ha, p, u, hp, hx, hu, rfl⟩)
      exact (hco.resolveIn_missing_use hs huse (hne (hp ▸ hco.attr_parse a ha))).1
  · simp only [startTag, List.mem_append, List.mem_map]
    rintro x (⟨d, hd, rfl⟩ | ⟨a, ha, rfl⟩)
    · have hv := declares?_declarationName (hco.uses_prefix ((hco.missing_spec scope).2.1 d hd).1)
      exact .inr (by rw [hv]; rfl)
    · exact .inl ⟨a, ha, rfl⟩

/-- The children of a coherent element are written where the tag's declarations are in force. -/
theorem scopeAgrees_missing (hco : Coherent e) {stack : List (List (String × String))}
    (hs : ScopeAgrees scope stack) (n : NodeId) :
    ScopeAgrees (missing scope e).2 (declarations (startTag scope n e).attrs :: stack) where
  lookup_eq p := by rw [List.flatten_cons, hco.lookup_startTag hs n]
  xml := hco.lookup_missing_reserved (.inl rfl) hs.xml
  xmlns := hco.lookup_missing_reserved (.inr rfl) hs.xmlns

end Coherent

/-- In a tree whose elements are all coherent, every start tag written is faithful where the
declarations of the open tags are in force. -/
theorem faithful_of_coherent {t : Tree} (ht : ∀ m e, t.element? m = some e → Coherent e) :
    ∀ (fuel : Nat) (scope : List (String × String)) (stack : List (List (String × String)))
      (n : NodeId), ScopeAgrees scope stack → ∀ x ∈ tagScopes stack (pieces t fuel scope n),
      ∃ e, t.element? x.1.node = some e ∧ Faithful x.2 x.1 e
  | 0, _, _, _, _, x, hx => by simp [pieces, tagScopes] at hx
  | fuel + 1, scope, stack, n, hs, x, hx => by
    have hkids : ∀ s stack (cs : List NodeId), ScopeAgrees s stack →
        x ∈ tagScopes stack (cs.flatMap (pieces t fuel s)) →
        ∃ e, t.element? x.1.node = some e ∧ Faithful x.2 x.1 e := by
      intro s stack cs hs hx
      obtain ⟨c, -, hc⟩ := mem_tagScopes_flatMap (fun c _ => foldl_push_pieces t fuel s c stack) hx
      exact faithful_of_coherent ht fuel s stack c hs x hc
    cases hc : (t.get n).content with
    | document => simp only [pieces, hc] at hx; exact hkids _ _ _ hs hx
    | fragment => simp only [pieces, hc] at hx; exact hkids _ _ _ hs hx
    | element e =>
      have he : t.element? n = some e := by simp [Tree.element?, hc]
      have hco := ht n e he
      simp only [pieces, hc] at hx
      cases hcs : t.children n with
      | nil =>
        simp only [hcs, tagScopes, Piece.inScope, List.append_nil, List.mem_singleton] at hx
        subst hx
        exact ⟨e, he, hco.faithful_startTag hs n⟩
      | cons c cs =>
        simp only [hcs] at hx
        rw [List.cons_append, tagScopes, tagScopes_append] at hx
        simp only [Piece.inScope, Piece.push, List.mem_append, List.mem_singleton] at hx
        rcases hx with rfl | hx | hx
        · exact ⟨e, he, hco.faithful_startTag hs n⟩
        · exact hkids _ _ _ (hco.scopeAgrees_missing hs n) hx
        · simp [tagScopes, Piece.inScope] at hx
    | _ => simp [pieces, hc, tagScopes, Piece.inScope] at hx

theorem serialize_tags_faithful {t : Tree} (ht : ∀ m e, t.element? m = some e → Coherent e)
    (n : NodeId) : ∀ x ∈ tagScopes [] (pieces t (t.size + 1) [] n),
      ∃ e, t.element? x.1.node = some e ∧ Faithful x.2 x.1 e :=
  faithful_of_coherent ht _ [] [] n ⟨fun _ => rfl, rfl, rfl⟩

end Markup.Xml
