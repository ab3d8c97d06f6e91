import Markup.Proofs.Build.Coherent
import Markup.Render.Basic

/-!
# Rendered start tags declare what the tree holds

Under the strict policy, when every declaration the build meets binds a URI with no surrounding
blanks and rebinds neither `xml` nor `xmlns`, each start tag written is faithful to its element
(`Xml.Faithful`). The condition on blanks cannot be dropped: a declaration binds its URI trimmed
but is written as given (`renderSpec_keeps_declaration_blanks`).
-/

namespace Markup

open BuildM Markup.Tree

theorem normalize_parent {t : Tree} {root doc : NodeId} (spec : Spec) (args : List Spec)
    (hroot : (t.nodeType root).isContainer = true) :
    normalize (.options { parent := some root, doc := some doc }) spec args t =
      .ok ⟨.parent, root, root, doc, spec, args⟩ t := by
  have hget : (EStateM.get : BuildM Tree) t = .ok t t := rfl
  simp [normalize, Options.bindings, checkBindings, hroot, bind, EStateM.bind, MonadState.get,
    getThe, MonadStateOf.get, hget, pure, EStateM.pure]

theorem Scope.gather_of_element?_eq_none {t : Tree} {n : NodeId} (h : t.element? n = none) :
    Scope.gather t n = .empty := by
  simp [Scope.gather, Scope.gatherWithin, h]

theorem build_parent {t : Tree} {root doc : NodeId} (spec : Spec) (args : List Spec) (policy : Policy)
    (hroot : (t.nodeType root).isContainer = true) (hel : t.element? root = none) :
    build (.options { parent := some root, doc := some doc }) spec args policy t =
      buildSpec policy args (spec.callDepth args) ⟨.parent, root, doc⟩ .empty spec t := by
  show EStateM.bind _ _ t = _
  simp only [EStateM.bind, normalize_parent spec args hroot, run]
  show EStateM.bind _ _ t = _
  simp only [EStateM.bind, BuildM.read, Scope.gather_of_element?_eq_none hel]

namespace Tree

theorem element?_empty (m : NodeId) : Tree.empty.element? m = none := by
  simp [element?, get_of_size_le (t := Tree.empty) (Nat.zero_le m), Node.placeholder]

theorem element?_createDocument (m : NodeId) : Tree.empty.createDocument.1.element? m = none := by
  simp [createDocument, element?_alloc, element?_empty]

theorem element?_createFragment (m : NodeId) :
    (Tree.empty.createDocument.1.createFragment 0).1.element? m = none := by
  simp [createFragment, element?_alloc, element?_createDocument]

end Tree

theorem Spec.flatten_string (str : String) (args : List Spec) :
    (Spec.string str).flatten args = some str := by
  simp [Spec.flatten, Spec.flattenWith, Spec.flattenFuel]

namespace RenderConfig

variable {c : RenderConfig} {spec : Spec} {args : List Spec}

theorem buildInto_document (spec : Spec) (args : List Spec) (hroot : c.root = .document) :
    c.buildInto spec args =
      match buildSpec c.policy args (spec.callDepth args) ⟨.parent, 0, 0⟩ .empty spec
          Tree.empty.createDocument.1 with
      | .ok _ t => .ok (t, 0)
      | .error e _ => .error e := by
  simp only [buildInto, hroot, EStateM.run]
  rw [build_parent spec args c.policy rfl rfl]
  rfl

theorem buildInto_fragment (spec : Spec) (args : List Spec) (hroot : c.root = .fragment) :
    c.buildInto spec args =
      match buildSpec c.policy args (spec.callDepth args) ⟨.parent, 1, 0⟩ .empty spec
          (Tree.empty.createDocument.1.createFragment 0).1 with
      | .ok _ t => .ok (t, 1)
      | .error e _ => .error e := by
  simp only [buildInto, hroot, EStateM.run]
  rw [build_parent spec args c.policy rfl rfl]
  rfl

theorem buildInto_eq_ok {t : Tree} {root : NodeId} (h : c.buildInto spec args = .ok (t, root)) :
    ∃ t₀ doc a, (∀ m, t₀.element? m = none) ∧
      buildSpec c.policy args (spec.callDepth args) ⟨.parent, root, doc⟩ .empty spec t₀ = .ok a t := by
  cases hroot : c.root with
  | document =>
    rw [buildInto_document spec args hroot] at h
    split at h
    · next a t' hrun =>
      cases h
      exact ⟨_, 0, a, element?_createDocument, hrun⟩
    · cases h
  | fragment =>
    rw [buildInto_fragment spec args hroot] at h
    split at h
    · next a t' hrun =>
      cases h
      exact ⟨_, 0, a, element?_createFragment, hrun⟩
    · cases h

theorem elements_of_buildInto {t : Tree} {root : NodeId} (hpolicy : c.policy = .strict)
    (hs : spec.DeclarationsTrimmed args) (h : c.buildInto spec args = .ok (t, root)) :
    Elements Xml.Coherent t := by
  obtain ⟨t₀, doc, a, h₀, hrun⟩ := buildInto_eq_ok h
  rw [hpolicy] at hrun
  exact keeps_buildSpec args _ _ .empty spec ⟨rfl, rfl⟩ hs t₀ a t
    (fun m e he => by rw [h₀] at he; cases he) hrun

/-- A strict render whose namespace declarations are trimmed writes every start tag faithfully:
the output is the writing of the tree's pieces, and each start tag among them agrees with its
element under the declarations in force there. -/
theorem renderSpec_tags_faithful {t : Tree} {root : NodeId} (hpolicy : c.policy = .strict)
    (hs : spec.DeclarationsTrimmed args) (hbuild : c.buildInto spec args = .ok (t, root)) :
    c.renderSpec spec args = .ok ((Xml.pieces t (t.size + 1) [] root).foldl Xml.Piece.write
        (Xml.startPrinter t root c.writeOptions)).out ∧
      ∀ x ∈ Xml.tagScopes [] (Xml.pieces t (t.size + 1) [] root),
        ∃ e, t.element? x.1.node = some e ∧ Xml.Faithful x.2 x.1 e := by
  refine ⟨?_, Xml.serialize_tags_faithful (elements_of_buildInto hpolicy hs hbuild) root⟩
  rw [renderSpec, hbuild]
  exact congrArg Except.ok (Xml.serialize_eq_foldl t root _)


/-- Declaring a default namespace on an element binds it to the trimmed URI, while the
declaration is kept with the value as given. -/
theorem buildInto_default_declaration {u : String} (hu : Text.trim u ≠ "") :
    ({ policy := .strict } : RenderConfig).buildInto
      (.mapping [("#a", .list []), ("xmlns", .string u)]) [] =
    .ok (⟨#[⟨.document, none, none, [1]⟩,
      ⟨.element ⟨none, "a", some (Text.trim u), [⟨none, "xmlns", some xmlnsNamespace, u⟩]⟩,
        some 0, some 0, []⟩]⟩, 0) := by
  have hfind : findDesignator none [("#a", .list []), ("xmlns", .string u)] =
      .ok (some ("#a", .named "a", .list [])) := by rfl
  have hrole₁ : KeyRole.ofKey "#a" = .designator (.named "a") := rfl
  have hrole₂ : KeyRole.ofKey "xmlns" = .attribute ⟨none, "xmlns"⟩ := rfl
  have hattrs : attributeEntries [("#a", Spec.list []), ("xmlns", .string u)] =
      [("xmlns", .string u)] := by
    simp only [attributeEntries, List.filter_cons, List.filter_nil, hrole₁, hrole₂]
    rfl
  have hsort : Name.sortEntries [("xmlns", Spec.string u)] = [("xmlns", .string u)] := by
    simp [Name.sortEntries]
  rw [buildInto_document _ _ rfl]
  simp only [buildSpec]
  rw [buildObject_of_named hfind]
  simp only [hattrs, placeElement, materialize, hsort, Scope.declare, List.foldl_cons, List.foldl_nil,
    List.forM, setAttrEntry, Spec.flatten_string]
  have hresolve : (TagName.qualified "a").resolve = .ok ("a", "") := rfl
  have hdeclares : Name.declares? "xmlns" = some "" := rfl
  have hparse : QName.parse? "xmlns" = some ⟨none, "xmlns"⟩ := rfl
  have hparse_a : QName.parse? "a" = some ⟨none, "a"⟩ := rfl
  have hns : (Scope.empty.bind "" (Text.trim u)).namespaceOf? "" = some (Text.trim u) := by
    simp [Scope.namespaceOf?, Scope.resolve?, Scope.get?_bind, hu]
  have hne : (Text.trim u).isEmpty = false := by simpa using hu
  simp only [hresolve, hdeclares, hparse, hns, BuildM.check, pure_bind, bind_assoc]
  have hmake : (make fun x => x.createElementNs 0 (Text.trim u) "a") Tree.empty.createDocument.1 =
      .ok 1 (Tree.empty.createDocument.1.alloc
        (.element ⟨none, "a", some (Text.trim u), []⟩) (some 0)).1 := by
    simp only [BuildM.make, Tree.createElementNs, hparse_a, hne, Bool.false_eq_true, if_false]
    rfl
  rw [bind_apply_of_eq_ok hmake]
  rfl


/-- A default namespace declared without blanks: a render that meets every condition. -/
theorem renderSpec_default_namespace_faithful :
    ∃ t, ({ policy := .strict } : RenderConfig).policy = .strict ∧
      (Spec.mapping [("#a", .list []), ("xmlns", .string "urn:x")]).DeclarationsTrimmed [] ∧
      ({ policy := .strict } : RenderConfig).buildInto
        (.mapping [("#a", .list []), ("xmlns", .string "urn:x")]) [] = .ok (t, 0) ∧
      (({ policy := .strict } : RenderConfig).renderSpec
          (.mapping [("#a", .list []), ("xmlns", .string "urn:x")]) [] =
        .ok ((Xml.pieces t (t.size + 1) [] 0).foldl Xml.Piece.write
          (Xml.startPrinter t 0 ({ policy := .strict } : RenderConfig).writeOptions)).out ∧
      ∀ x ∈ Xml.tagScopes [] (Xml.pieces t (t.size + 1) [] 0),
        ∃ e, t.element? x.1.node = some e ∧ Xml.Faithful x.2 x.1 e) := by
  have hdecl : DeclaresTrimmed [("#a", .list []), ("xmlns", .string "urn:x")] [] := by
    intro e he p hp
    simp only [List.mem_cons, List.mem_nil_iff, or_false] at he
    rcases he with rfl | rfl
    · cases hp
    · cases hp
      refine ⟨by decide, by decide, fun v hv => ?_⟩
      rw [Spec.flatten_string, Option.some.injEq] at hv
      subst hv
      decide
  have hs : (Spec.mapping [("#a", .list []), ("xmlns", .string "urn:x")]).DeclarationsTrimmed [] :=
    .mapping hdecl fun e he => by
      simp only [List.mem_cons, List.mem_nil_iff, or_false] at he
      rcases he with rfl | rfl
      · exact .list fun _ hx => absurd hx List.not_mem_nil
      · exact .string _
  have hb := buildInto_default_declaration (u := "urn:x") (by decide)
  exact ⟨_, rfl, hs, hb, renderSpec_tags_faithful rfl hs hb⟩

/-- A default namespace declared with blanks around it: the element is in the trimmed
namespace, but its declaration is written with the blanks. -/
theorem renderSpec_keeps_declaration_blanks :
    ({ policy := .strict } : RenderConfig).buildInto
        (.mapping [("#a", .list []), ("xmlns", .string " urn:x ")]) [] =
      .ok (⟨#[⟨.document, none, none, [1]⟩,
        ⟨.element ⟨none, "a", some "urn:x", [⟨none, "xmlns", some xmlnsNamespace, " urn:x "⟩]⟩,
          some 0, some 0, []⟩]⟩, 0) ∧
    ({ policy := .strict } : RenderConfig).renderSpec
        (.mapping [("#a", .list []), ("xmlns", .string " urn:x ")]) [] =
      .ok "<a xmlns=\" urn:x \"/>" := by
  have htrim : Text.trim " urn:x " = "urn:x" := by decide
  have hb := buildInto_default_declaration (u := " urn:x ") (by rw [htrim]; decide)
  rw [htrim] at hb
  refine ⟨hb, ?_⟩
  rw [renderSpec, hb]
  exact congrArg Except.ok (by decide +kernel)

end RenderConfig

end Markup
