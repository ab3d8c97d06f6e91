import Markup.Name.Char

/-!
# Qualified names

A non-colonized name (`NCName`) is a start character followed by name characters. A
qualified name is an `NCName`, or two of them joined by one colon: the prefix and the
local part. Since no name character is a colon, a qualified name splits in one way only,
at its colon, and `QName.parse?` reads that split back from the text that `QName.toString`
writes.

A namespace declaration is the key `xmlns`, which declares the default namespace, or
`xmlns:p` for an `NCName` `p`, which declares the prefix `p`.
-/

namespace Markup.Name

/-- A name given as characters: a start character, then name characters only. -/
def isNCNameChars : List Char → Bool
  | [] => false
  | c :: cs => isStartChar c && cs.all isNameChar

/-- A non-colonized name. -/
def isNCName (s : String) : Bool :=
  isNCNameChars s.toList

/-- The characters before the first colon, and those after it when there is a colon. -/
def splitColon : List Char → List Char × Option (List Char)
  | [] => ([], none)
  | c :: cs =>
    if c = ':' then ([], some cs)
    else
      let rest := splitColon cs
      (c :: rest.1, rest.2)

end Markup.Name

namespace Markup

/-- A qualified name: an optional prefix and a local part. -/
structure QName where
  prefixName : Option String
  localName : String
  deriving DecidableEq, Repr

namespace QName

/-- Reads a qualified name: one `NCName`, or two joined by a colon. -/
def parse? (s : String) : Option QName :=
  match Name.splitColon s.toList with
  | (l, none) => if Name.isNCNameChars l then some ⟨none, String.ofList l⟩ else none
  | (p, some l) =>
    if Name.isNCNameChars p && Name.isNCNameChars l then
      some ⟨some (String.ofList p), String.ofList l⟩
    else none

/-- The written form: `prefix:local`, or the local part alone. -/
protected def toString (q : QName) : String :=
  match q.prefixName with
  | some p => p ++ ":" ++ q.localName
  | none => q.localName

instance : ToString QName := ⟨QName.toString⟩

/-- The prefix, or the empty string for an unprefixed name. -/
def prefixOrEmpty (q : QName) : String :=
  q.prefixName.getD ""

/-- Whether the name is `xmlns` or `xmlns:p`, a namespace declaration. -/
def isDeclaration (q : QName) : Bool :=
  match q.prefixName with
  | some p => p == "xmlns"
  | none => q.localName == "xmlns"

end QName

namespace Name

/-- Whether the text is a qualified name. -/
def isQName (s : String) : Bool :=
  (QName.parse? s).isSome

/-- The prefix that a namespace declaration key declares: `""` for `xmlns`, `p` for
`xmlns:p` with `p` an `NCName`, and nothing for any other key. -/
def declares? (key : String) : Option String :=
  match key.toList with
  | ['x', 'm', 'l', 'n', 's'] => some ""
  | 'x' :: 'm' :: 'l' :: 'n' :: 's' :: ':' :: p =>
    if isNCNameChars p then some (String.ofList p) else none
  | _ => none

/-- Whether the key is a namespace declaration. -/
def isDeclaration (key : String) : Bool :=
  (declares? key).isSome

end Name

end Markup
