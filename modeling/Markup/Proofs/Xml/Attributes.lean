import Markup.Proofs.Tree.Names

/-!
# The attribute names of a start tag

A start tag lists the declarations the writer adds, then the element's own attributes in the
order they are stored. The writer adds a declaration only for a prefix that neither an earlier
added declaration nor one of the element's own declarations binds, so the added names are
distinct, and none is the name of an attribute the writer itself counts as a declaration.

The element's own attributes are a different matter: the tree tells attributes apart by
namespace and local name, so two of them may share a qualified name (one prefix over two
namespaces, or a plain record and one in a namespace), and the tag then writes that name twice.
On a reachable tree, wherever the writer's declaration test agrees with the test of the name,
a start tag's names are distinct exactly when the element's attribute names are
(`Reachable.startTag_attribute_names`).
-/

namespace Markup.Xml

/-- The declaration loop adds bindings of distinct prefixes, each one the element uses and none
the tag already declares. -/
theorem missingFrom_fresh (outer : List (String × String)) (us : List (String × String)) :
    ∀ (here acc : List (String × String)), ∃ new,
      missingFrom outer us here acc = ((new ++ acc).reverse, new ++ here ++ outer) ∧
      (new.map Prod.fst).Nodup ∧ ∀ x ∈ new, x ∈ us ∧ x.1 ∉ here.map Prod.fst := by
  induction us with
  | nil => exact fun here acc => ⟨[], by simp [missingFrom], by simp, by simp⟩
  | cons x rest ih =>
    intro here acc
    obtain ⟨p, u⟩ := x
    unfold missingFrom
    split
    · obtain ⟨new, heq, hnd, hnew⟩ := ih here acc
      exact ⟨new, heq, hnd, fun x hx => ⟨List.mem_cons_of_mem _ (hnew x hx).1, (hnew x hx).2⟩⟩
    · next hadd =>
      simp only [Bool.or_eq_true, beq_iff_eq, List.any_eq_true, not_or, not_exists, not_and]
        at hadd
      have hp : p ∉ here.map Prod.fst := by
        simp only [List.mem_map, not_exists, not_and]
        exact fun y hy hyp => hadd.1.2 y hy (by simp [hyp])
      obtain ⟨new, heq, hnd, hnew⟩ := ih ((p, u) :: here) ((p, u) :: acc)
      refine ⟨new ++ [(p, u)], by simpa using heq, ?_, fun x hx => ?_⟩
      · -- the new bindings avoid the prefix declared before them
        rw [List.map_append, List.nodup_append]
        refine ⟨hnd, List.nodup_singleton _, fun a ha b hb hab => ?_⟩
        obtain ⟨y, hy, rfl⟩ := List.mem_map.1 ha
        rw [List.map_singleton, List.mem_singleton] at hb
        exact (hnew y hy).2 (by simp [hab, hb])
      · rcases List.mem_append.1 hx with hx | hx
        · refine ⟨List.mem_cons_of_mem _ (hnew x hx).1, fun hm => (hnew x hx).2 ?_⟩
          exact List.mem_cons_of_mem _ hm
        · rw [List.mem_singleton] at hx
          subst hx
          exact ⟨List.mem_cons_self .., hp⟩

variable {scope : List (String × String)} {n : NodeId} {e : Element}

/-- A start tag lists the declarations the writer adds, for distinct prefixes that the element
uses and does not declare itself, then the element's attributes in order. -/
theorem startTag_attrs (scope : List (String × String)) (n : NodeId) (e : Element) :
    ∃ ds : List (String × String), (startTag scope n e).attrs =
        ds.map (fun d => (declarationName d.1, d.2)) ++ e.attrs.map (fun a => (a.name, a.value)) ∧
      (ds.map Prod.fst).Nodup ∧ ∀ d ∈ ds, d ∈ uses e ∧ ∀ a ∈ e.attrs, declaredBy a ≠ some d.1 := by
  obtain ⟨new, heq, hnd, hnew⟩ := missingFrom_fresh scope (uses e) (ownDeclarations e).reverse []
  have hm : (missing scope e).1 = new.reverse := by
    simpa [missing, ownDeclarations] using congrArg Prod.fst heq
  refine ⟨new.reverse, by rw [startTag, hm], by simpa using hnd, fun d hd => ?_⟩
  obtain ⟨huse, hhere⟩ := hnew d (List.mem_reverse.1 hd)
  refine ⟨huse, fun a ha hda => hhere ?_⟩
  -- a record that declares the prefix puts it among the element's own declarations
  have hown : (d.1, a.value) ∈ ownDeclarations e := mem_ownDeclarations.2 ⟨a, ha, hda, rfl⟩
  exact List.mem_map.2 ⟨_, List.mem_reverse.2 hown, rfl⟩

/-- The prefixes an element uses, when its names are stored as read, are empty or `NCName`s. -/
theorem uses_prefix_of_namesRead (hread : e.NamesRead) {x : String × String} (hx : x ∈ uses e) :
    x.1 = "" ∨ Name.isNCName x.1 = true := by
  rcases mem_uses.1 hx with ⟨-, rfl⟩ | ⟨a, ha, p, u, hp, -, hu, rfl⟩
  · cases hpre : e.prefixName with
    | none => exact .inl rfl
    | some p => exact .inr (hread.prefix_ncname p hpre)
  · exact .inr (isNCName_prefix_of_parse? (hp ▸ hread.attr_parse a ha (by simp [hu])))

/-- The names of the declarations a start tag adds are distinct. -/
theorem startTag_added_names_nodup (hread : e.NamesRead) {ds : List (String × String)}
    (hnd : (ds.map Prod.fst).Nodup) (huse : ∀ d ∈ ds, d ∈ uses e) :
    (ds.map fun d => declarationName d.1).Nodup := by
  rw [show (fun d : String × String => declarationName d.1) = declarationName ∘ Prod.fst from rfl,
    ← List.map_map]
  refine hnd.map_on fun p hp q hq hpq => ?_
  obtain ⟨d, hd, rfl⟩ := List.mem_map.1 hp
  obtain ⟨d', hd', rfl⟩ := List.mem_map.1 hq
  have hv := declares?_declarationName (uses_prefix_of_namesRead hread (huse d hd))
  have hv' := declares?_declarationName (uses_prefix_of_namesRead hread (huse d' hd'))
  exact Option.some.inj (hv.symm.trans (hpq ▸ hv'))

/-- Where the writer's declaration test agrees with the test of the name, a start tag's names
are distinct exactly when the element's attribute names are: an added declaration never takes
the name of an attribute, since such an attribute would declare its prefix. -/
theorem startTag_names_nodup_iff (hread : e.NamesRead)
    (hagree : ∀ a ∈ e.attrs, declaredBy a = Name.declares? a.name) :
    ((startTag scope n e).attrs.map Prod.fst).Nodup ↔ (e.attrs.map Attr.name).Nodup := by
  obtain ⟨ds, hattrs, hnd, hds⟩ := startTag_attrs scope n e
  have hnames : (startTag scope n e).attrs.map Prod.fst =
      ds.map (fun d => declarationName d.1) ++ e.attrs.map Attr.name := by
    rw [hattrs, List.map_append, List.map_map, List.map_map]
    rfl
  rw [hnames, List.nodup_append]
  refine ⟨fun h => h.2.1, fun h => ⟨startTag_added_names_nodup hread hnd fun d hd => (hds d hd).1, h,
    fun k hk k' hk' hkk => ?_⟩⟩
  obtain ⟨d, hd, rfl⟩ := List.mem_map.1 hk
  obtain ⟨a, ha, rfl⟩ := List.mem_map.1 hk'
  have hv := declares?_declarationName (uses_prefix_of_namesRead hread (hds d hd).1)
  exact (hds d hd).2 a ha (by rw [hagree a ha, ← hkk, hv])

/-- Every tag among the pieces of a node is the start tag of an element of the tree, written
where some scope is in force. -/
theorem exists_startTag_of_mem_tagScopes {t : Tree} :
    ∀ (fuel : Nat) (scope : List (String × String)) (stack : List (List (String × String)))
      (n : NodeId) (x : StartTag × List (String × String)), x ∈ tagScopes stack (pieces t fuel scope n) →
      ∃ e s, t.element? x.1.node = some e ∧ x.1 = startTag s x.1.node e
  | 0, _, _, _, x, hx => by simp [pieces, tagScopes] at hx
  | fuel + 1, scope, stack, n, x, hx => by
    have hkids : ∀ s stack (cs : List NodeId), x ∈ tagScopes stack (cs.flatMap (pieces t fuel s)) →
        ∃ e s, t.element? x.1.node = some e ∧ x.1 = startTag s x.1.node e := by
      intro s stack cs hx
      obtain ⟨c, -, hc⟩ := mem_tagScopes_flatMap (fun c _ => foldl_push_pieces t fuel s c stack) hx
      exact exists_startTag_of_mem_tagScopes fuel s stack c x hc
    cases hc : (t.get n).content with
    | document => simp only [pieces, hc] at hx; exact hkids _ _ _ hx
    | fragment => simp only [pieces, hc] at hx; exact hkids _ _ _ hx
    | element e =>
      have he : t.element? n = some e := by simp [Tree.element?, hc]
      simp only [pieces, hc] at hx
      cases hcs : t.children n with
      | nil =>
        simp only [hcs, tagScopes, Piece.inScope, List.append_nil, List.mem_singleton] at hx
        subst hx
        exact ⟨e, scope, he, rfl⟩
      | cons c cs =>
        simp only [hcs] at hx
        rw [List.cons_append, tagScopes, tagScopes_append] at hx
        simp only [Piece.inScope, Piece.push, List.mem_append, List.mem_singleton] at hx
        rcases hx with rfl | hx | hx
        · exact ⟨e, scope, he, rfl⟩
        · exact hkids _ _ _ hx
        · simp [tagScopes, Piece.inScope] at hx
    | _ => simp [pieces, hc, tagScopes, Piece.inScope] at hx

end Markup.Xml

namespace Markup.Tree

open Xml

variable {t : Tree}

/-- Every start tag that writing a node of a reachable tree produces lists the declarations the
writer adds, whose names are distinct and are the name of no stored attribute the writer counts
as a declaration, then the element's attributes in order. Where the writer's declaration test
agrees with the test of the name on the element's attributes, the tag's names are distinct
exactly when the element's attribute names are. -/
theorem Reachable.startTag_attribute_names (hr : t.Reachable) (n : NodeId) :
    ∀ x ∈ tagScopes [] (pieces t (t.size + 1) [] n), ∃ (e : Element) (ds : List (String × String)), t.element? x.1.node = some e ∧
      x.1.attrs = ds.map (fun d => (declarationName d.1, d.2)) ++
        e.attrs.map (fun a => (a.name, a.value)) ∧
      (ds.map fun d => declarationName d.1).Nodup ∧
      (∀ d ∈ ds, ∀ a ∈ e.attrs, (declaredBy a).isSome → declarationName d.1 ≠ a.name) ∧
      ((∀ a ∈ e.attrs, declaredBy a = Name.declares? a.name) →
        ((x.1.attrs.map Prod.fst).Nodup ↔ (e.attrs.map Attr.name).Nodup)) := by
  intro x hx
  obtain ⟨e, s, he, hx⟩ := exists_startTag_of_mem_tagScopes _ _ _ _ x hx
  have hread := hr.namesRead _ e he
  obtain ⟨ds, hattrs, hnd, hds⟩ := startTag_attrs s x.1.node e
  -- an attribute bearing an added name would declare the added prefix, which no added one is
  have hfresh : ∀ d ∈ ds, ∀ a ∈ e.attrs, (declaredBy a).isSome → declarationName d.1 ≠ a.name := by
    intro d hd a ha hdecl hname
    obtain ⟨q, hq⟩ := Option.isSome_iff_exists.1 hdecl
    have hv := declares?_declarationName (uses_prefix_of_namesRead hread (hds d hd).1)
    rw [hname, hr.declares?_of_declaredBy he ha hq] at hv
    exact (hds d hd).2 a ha (hq.trans hv)
  refine ⟨e, ds, he, hx ▸ hattrs, startTag_added_names_nodup hread hnd fun d hd => (hds d hd).1,
    hfresh, fun hagree => ?_⟩
  rw [hx]
  exact startTag_names_nodup_iff hread hagree

theorem Reachable.startTag_attribute_names_namespaced :
    let T := (Op.setAttributeNs 1 "urn:a" "p:x" "1").apply ((Op.createElement 0 "a").apply
      (Op.createDocument.apply Tree.empty))
    T.Reachable ∧
    ∀ x ∈ tagScopes [] (pieces T (T.size + 1) [] 1),
      ∃ (e : Element) (ds : List (String × String)), T.element? x.1.node = some e ∧
      x.1.attrs = ds.map (fun d => (declarationName d.1, d.2)) ++
        e.attrs.map (fun a => (a.name, a.value)) ∧
      (ds.map fun d => declarationName d.1).Nodup ∧
      (∀ d ∈ ds, ∀ a ∈ e.attrs, (declaredBy a).isSome → declarationName d.1 ≠ a.name) ∧
      ((∀ a ∈ e.attrs, declaredBy a = Name.declares? a.name) →
        ((x.1.attrs.map Prod.fst).Nodup ↔ (e.attrs.map Attr.name).Nodup)) := by
  intro T
  refine ⟨?r, Reachable.startTag_attribute_names ?r 1⟩
  exact .step _ (.step _ (.step _ .empty trivial) trivial) trivial

/-- Two attributes in two namespaces under one prefix and local name are both stored, and the
start tag writes their shared name twice. -/
theorem startTag_repeats_shared_name :
    let T := (Op.setAttributeNs 1 "urn:b" "p:x" "2").apply ((Op.setAttributeNs 1 "urn:a" "p:x" "1").apply
      ((Op.createElement 0 "a").apply (Op.createDocument.apply Tree.empty)))
    T.Reachable ∧
    serialize T 1 {} = "<a xmlns:p=\"urn:a\" p:x=\"1\" p:x=\"2\"/>" ∧
    ¬ ∀ x ∈ tagScopes [] (pieces T (T.size + 1) [] 1), (x.1.attrs.map Prod.fst).Nodup := by
  intro T
  refine ⟨.step _ (.step _ (.step _ (.step _ .empty trivial) trivial) trivial) trivial,
    by decide +kernel, fun h => ?_⟩
  have hpieces : pieces T (T.size + 1) [] 1 =
      [.empty (startTag [] 1 ⟨none, "a", none,
        [⟨some "p", "x", some "urn:a", "1"⟩, ⟨some "p", "x", some "urn:b", "2"⟩]⟩)] := rfl
  rw [hpieces] at h
  simp only [tagScopes, Piece.inScope, List.append_nil, List.mem_singleton, forall_eq] at h
  revert h
  decide +kernel

end Markup.Tree
