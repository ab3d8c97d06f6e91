import Markup.Build.Element
import Markup.Json.Value
import Markup.Text.Escaped

/-!
# Render settings

The settings of a render: the namespace policy, an indent width (compact output when
absent), whether to write the XML declaration, and whether to build into a document or a
fragment of one.

Settings are read from a JSON object whose keys are `namespace-policy` (`"permissive"` or
`"strict"`), `indent` (a non-negative integer, or null for none), `xml-declaration` (a
boolean) and `root` (`"document"` or `"fragment"`). A missing key keeps its default, an
unknown key is refused, and a value of the wrong kind is refused with a message naming what
was found and what was expected. An array gives the values in that key order. A choice may
also be written as an object with one key, the choice, whose value is null.
-/

namespace Markup

inductive Root where
  | document
  | fragment
  deriving DecidableEq, Repr

/-- The settings of a render. -/
structure RenderConfig where
  policy : Policy := .permissive
  indent : Option Nat := none
  declaration : Bool := false
  root : Root := .document
  deriving DecidableEq, Repr

namespace Config

inductive Unexpected where
  | bool (b : Bool)
  | unsigned (n : Nat)
  | signed (i : Int)
  | float (f : Float)
  | str (s : String)
  | unit
  | seq
  | map

def hexDigits (n : Nat) : String :=
  String.ofList (Nat.toDigits 16 n)

/-- A character inside a quoted string in a message: quotes, backslashes and the usual
controls escaped with a backslash, the other characters that would not show plainly by code
point. -/
def quoteChar (c : Char) : String :=
  match c with
  | '"' => "\\\""
  | '\\' => "\\\\"
  | '\n' => "\\n"
  | '\r' => "\\r"
  | '\t' => "\\t"
  | '\x00' => "\\0"
  | c =>
    if Text.shownByEscape c then
      "\\u" ++ "\x7b" ++ hexDigits c.toNat ++ "\x7d"
    else c.toString

def quote (s : String) : String :=
  "\"" ++ String.join (s.toList.map quoteChar) ++ "\""

def Unexpected.text : Unexpected → String
  | .bool b => "boolean `" ++ (if b then "true" else "false") ++ "`"
  | .unsigned n => "integer `" ++ Decimal.natDigits n ++ "`"
  | .signed i => "integer `" ++ Number.intText i ++ "`"
  | .float f => "floating point `" ++ Number.floatQuote f ++ "`"
  | .str s => "string " ++ quote s
  | .unit => "null"
  | .seq => "sequence"
  | .map => "map"

def Unexpected.ofJson : Json → Unexpected
  | .null => .unit
  | .bool b => .bool b
  | .number (.int i) => if i ≥ 0 then .unsigned i.toNat else .signed i
  | .number (.float f) => .float f
  | .string s => .str s
  | .array _ => .seq
  | .object _ => .map

/-- Names in backquotes: one, two joined by `or`, or a list after `one of`. -/
def oneOf (names : List String) : String :=
  match names with
  | [a] => "`" ++ a ++ "`"
  | [a, b] => "`" ++ a ++ "` or `" ++ b ++ "`"
  | _ => "one of " ++ ", ".intercalate (names.map fun n => "`" ++ n ++ "`")

/-- Why settings could not be read. -/
inductive Problem where
  | invalidType (found : Unexpected) (expected : String)
  | invalidValue (found : Unexpected) (expected : String)
  | invalidLength (length : Nat) (expected : String)
  | unknownField (name : String) (expected : List String)
  | unknownVariant (name : String) (expected : List String)
  | duplicateField (name : String)

def Problem.message : Problem → String
  | .invalidType u e => "invalid type: " ++ u.text ++ ", expected " ++ e
  | .invalidValue u e => "invalid value: " ++ u.text ++ ", expected " ++ e
  | .invalidLength n e => "invalid length " ++ Decimal.natDigits n ++ ", expected " ++ e
  | .unknownField n [] => "unknown field `" ++ n ++ "`, there are no fields"
  | .unknownField n es => "unknown field `" ++ n ++ "`, expected " ++ oneOf es
  | .unknownVariant n [] => "unknown variant `" ++ n ++ "`, there are no variants"
  | .unknownVariant n es => "unknown variant `" ++ n ++ "`, expected " ++ oneOf es
  | .duplicateField n => "duplicate field `" ++ n ++ "`"

/-- The choice a value names among `names`: a string, or an object with one key whose
value is null. -/
def choice (names : List String) : Json → Except Problem String
  | .string s => if names.contains s then .ok s else .error (.unknownVariant s names)
  | .object [(k, v)] =>
    if !names.contains k then .error (.unknownVariant k names)
    else
      match v with
      | .null => .ok k
      | other => .error (.invalidType (.ofJson other) "unit")
  | .object _ => .error (.invalidValue .map "map with a single key")
  | other => .error (.invalidType (.ofJson other) "string or map")

def policyNames : List String := ["permissive", "strict"]

def rootNames : List String := ["document", "fragment"]

def policy (j : Json) : Except Problem Policy := do
  let s ← choice policyNames j
  return if s == "strict" then .strict else .permissive

def root (j : Json) : Except Problem Root := do
  let s ← choice rootNames j
  return if s == "fragment" then .fragment else .document

def size (j : Json) : Except Problem Nat :=
  match j with
  | .number (.int i) => if i ≥ 0 then .ok i.toNat else .error (.invalidValue (.signed i) "usize")
  | other => .error (.invalidType (.ofJson other) "usize")

def optSize : Json → Except Problem (Option Nat)
  | .null => .ok none
  | j => (size j).map some

def bool : Json → Except Problem Bool
  | .bool b => .ok b
  | other => .error (.invalidType (.ofJson other) "a boolean")

def renderFields : List String := ["namespace-policy", "indent", "xml-declaration", "root"]

def setRender (c : RenderConfig) (i : Nat) (j : Json) : Except Problem RenderConfig :=
  match i with
  | 0 => return { c with policy := ← policy j }
  | 1 => return { c with indent := ← optSize j }
  | 2 => return { c with declaration := ← bool j }
  | _ => return { c with root := ← root j }

/-- Reads values in key order from an array; values past the keys are refused after the
others were read. -/
def fromArray {α : Type} (set : α → Nat → Json → Except Problem α) (fields : Nat) (init : α)
    (xs : List Json) : Except Problem α := do
  let c ← ((xs.take fields).zip (List.range fields)).foldlM (fun c p => set c p.2 p.1) init
  if xs.length > fields then throw (.invalidLength xs.length "fewer elements in array")
  return c

def renderOfJson : Json → Except Problem RenderConfig
  | .object es =>
    es.foldlM (fun c e =>
      match renderFields.idxOf? e.1 with
      | some i => setRender c i e.2
      | none => .error (.unknownField e.1 renderFields)) {}
  | .array xs => fromArray setRender 4 {} xs
  | other => .error (.invalidType (.ofJson other) "struct RenderConfig")

/-- Reads the namespace policy of a build from a JSON value; other keys are ignored. -/
def policyOfJson : Json → Except Problem Policy
  | .object es =>
    es.foldlM (fun p e => if e.1 == "namespace-policy" then policy e.2 else .ok p) .permissive
  | .array xs => fromArray (fun _ _ j => policy j) 1 .permissive xs
  | other => .error (.invalidType (.ofJson other) "struct BuildConfig")

end Config

end Markup
