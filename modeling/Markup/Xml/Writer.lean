import Markup.Tree.Basic

/-!
# Writing XML

A node is written as XML text with these rules:

* text and attribute values escape `<`, `>`, `&`, `'` and `"`; comment, CDATA and
  instruction content is written as it is;
* an element with no children is written as an empty-element tag `<x/>`;
* a document or fragment writes its children only, and the declaration
  `<?xml version="1.0" encoding="UTF-8"?>` is written, when asked for, before a document;
* a start tag first declares the bindings that its name and attributes use and that the
  text written so far does not declare, then lists the element's own attributes.

With an indent width, a line break and the current indentation come before every tag,
comment, instruction and declaration, except the first thing written and anything that
directly follows text or a CDATA section. A start tag deepens the indentation by the width,
and an end tag makes it shallower before it is written.
-/

namespace Markup.Xml

/-- How to write a node. -/
structure Options where
  indent : Option Nat := none
  declaration : Bool := false
  deriving DecidableEq, Repr

/-- The escaped form of a character in text and attribute values. -/
def escapeChar : Char → String
  | '<' => "&lt;"
  | '>' => "&gt;"
  | '&' => "&amp;"
  | '\'' => "&apos;"
  | '"' => "&quot;"
  | c => c.toString

/-- Escapes the five markup characters. -/
def escape (s : String) : String :=
  s.toList.foldl (fun acc c => acc ++ escapeChar c) ""

/-- The text written so far, with what the indentation needs. -/
structure Printer where
  out : String
  width : Option Nat
  level : Nat
  lineBreak : Bool

namespace Printer

/-- Markup that starts on a new line when indenting, unless it follows text. -/
def tag (pr : Printer) (text : String) : Printer :=
  let pre :=
    match pr.width with
    | some _ => if pr.lineBreak then "\n" ++ String.ofList (List.replicate pr.level ' ') else ""
    | none => ""
  { pr with out := pr.out ++ pre ++ text, lineBreak := true }

/-- A start tag, after which the indentation deepens. -/
def start (pr : Printer) (text : String) : Printer :=
  let pr := pr.tag text
  { pr with level := pr.level + pr.width.getD 0 }

/-- An end tag, before which the indentation becomes shallower. -/
def close (pr : Printer) (text : String) : Printer :=
  { pr with level := pr.level - pr.width.getD 0 }.tag text

/-- Text or a CDATA section: written in place, and the next markup stays on its line. -/
def inline (pr : Printer) (text : String) : Printer :=
  { pr with out := pr.out ++ text, lineBreak := false }

end Printer

/-- The prefix that an attribute record declares, if it is a namespace declaration. -/
def declaredBy (a : Attr) : Option String :=
  match a.prefixName with
  | some p => if p == "xmlns" then some a.localName else none
  | none => if a.localName == "xmlns" then some "" else none

/-- The URI bound to a prefix in a scope listed innermost first. -/
def lookup (scope : List (String × String)) (p : String) : Option String :=
  (scope.find? (·.1 == p)).map (·.2)

/-- The bindings that an element's name and attributes use: its own prefix (or the default
namespace) with its namespace, where an unprefixed element with no namespace uses the empty
default; then each prefixed attribute in a namespace, other than a declaration. -/
def uses (e : Element) : List (String × String) :=
  let own :=
    match e.prefixName, e.ns with
    | p, some uri => [(p.getD "", uri)]
    | none, none => [("", "")]
    | some _, none => []
  own ++ e.attrs.filterMap fun a =>
    match a.prefixName, a.ns with
    | some p, some uri => if p != "xmlns" then some (p, uri) else none
    | _, _ => none

/-- Goes through the bindings an element uses: one is declared unless its prefix is `xml`,
this tag already declares the prefix, or the nearest written binding of the prefix (the
empty URI when there is none) is already its URI. -/
def missingFrom (outer : List (String × String)) :
    List (String × String) → List (String × String) → List (String × String) →
      List (String × String) × List (String × String)
  | [], here, acc => (acc.reverse, here ++ outer)
  | (p, u) :: rest, here, acc =>
    if p == "xml" || here.any (·.1 == p) || (lookup (here ++ outer) p).getD "" == u then
      missingFrom outer rest here acc
    else missingFrom outer rest ((p, u) :: here) ((p, u) :: acc)

/-- The declarations an element's start tag must add, in order, and the scope its
children are written in: the element's own declarations and the added ones over the
outer scope. -/
def missing (outer : List (String × String)) (e : Element) :
    List (String × String) × List (String × String) :=
  let here := (e.attrs.filterMap fun a => (declaredBy a).map fun p => (p, a.value)).reverse
  missingFrom outer (uses e) here []

/-- The name of the attribute that declares a prefix. -/
def declarationName (p : String) : String :=
  if p.isEmpty then "xmlns" else "xmlns:" ++ p

/-- A start tag's name and attributes. -/
def tagBody (name : String) (attrs : List (String × String)) : String :=
  name ++ String.join (attrs.map fun a => " " ++ a.1 ++ "=\"" ++ escape a.2 ++ "\"")

/-- Writes a node and its descendants, at most `fuel` levels deep. -/
def writeNode (t : Tree) : Nat → List (String × String) → Printer → NodeId → Printer
  | 0, _, pr, _ => pr
  | fuel + 1, scope, pr, n =>
    match (t.get n).content with
    | .document | .fragment => (t.children n).foldl (writeNode t fuel scope) pr
    | .element e =>
      let (added, inner) := missing scope e
      let attrs := added.map (fun d => (declarationName d.1, d.2)) ++
        e.attrs.map fun a => (a.name, a.value)
      let body := tagBody e.tagName attrs
      match t.children n with
      | [] => pr.tag ("<" ++ body ++ "/>")
      | cs =>
        let pr := pr.start ("<" ++ body ++ ">")
        let pr := cs.foldl (writeNode t fuel inner) pr
        pr.close ("</" ++ e.tagName ++ ">")
    | .text d => pr.inline (escape d)
    | .cdata d => pr.inline ("<![CDATA[" ++ d ++ "]]>")
    | .comment d => pr.tag ("<!--" ++ d ++ "-->")
    | .instruction target d =>
      pr.tag ("<?" ++ (if d.isEmpty then target else target ++ " " ++ d) ++ "?>")

/-- The XML declaration. -/
def declaration : String := "<?xml version=\"1.0\" encoding=\"UTF-8\"?>"

/-- Writes a node as XML text. -/
def serialize (t : Tree) (n : NodeId) (opts : Options) : String :=
  let pr : Printer := ⟨"", opts.indent, 0, false⟩
  let pr := if opts.declaration && t.nodeType n == .document then pr.tag declaration else pr
  (writeNode t (t.size + 1) [] pr n).out

end Markup.Xml
