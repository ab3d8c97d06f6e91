import Markup.Spec.Basic
import Markup.Name.Key

/-!
# Flattening a value to text

Attribute values, comment and CDATA data, tag names and processing-instruction targets are
specs reduced to one string:

* null and node handles have no text;
* a boolean is `true` or `false`, a number its decimal text, a string itself;
* a list joins the text of its items with single spaces, an item with no text counting as
  the empty string;
* a mapping writes `key`, the pair separator and the value's text for each entry, in the
  attribute key order, joined with single spaces; `{}` is the empty string;
* a callable is called with the arguments and its result flattened.

The pair separator applies to the outermost mapping only; anything nested uses `": "`.
-/

namespace Markup.Spec

/-- The separator between a key and its value when nothing else is asked for. -/
def defaultSeparator : String := ": "

/-- The text of a boolean. -/
def boolText (b : Bool) : String :=
  if b then "true" else "false"

/-- The text of an atom: a boolean, number or string. -/
def atomText? : Spec → Option String
  | .bool b => some (boolText b)
  | .number n => some n.toText
  | .string s => some s
  | _ => none

mutual

/-- Flattens with at most `fuel` nested calls; a call past them has no text. -/
def flattenFuel (fuel : Nat) (args : List Spec) (sep : String) : Spec → Option String
  | .null => none
  | .node _ => none
  | .bool b => some (boolText b)
  | .number n => some n.toText
  | .string s => some s
  | .callable body =>
    match fuel with
    | 0 => none
    | fuel + 1 => flattenFuel fuel args defaultSeparator (call body args)
  | .list items => some (" ".intercalate (flattenItemsFuel fuel args items))
  | .mapping entries =>
    some (" ".intercalate ((Name.sortEntries (flattenEntriesFuel fuel args entries)).map
      fun e => e.1 ++ sep ++ e.2))
termination_by s => (fuel, sizeOf s)

/-- The text of each item, the empty string for an item with none. -/
def flattenItemsFuel (fuel : Nat) (args : List Spec) : List Spec → List String
  | [] => []
  | s :: ss => (flattenFuel fuel args defaultSeparator s).getD "" :: flattenItemsFuel fuel args ss
termination_by ss => (fuel, sizeOf ss)

/-- Each key with the text of its value, the empty string for a value with none. -/
def flattenEntriesFuel (fuel : Nat) (args : List Spec) :
    List (String × Spec) → List (String × String)
  | [] => []
  | (k, s) :: ss =>
    (k, (flattenFuel fuel args defaultSeparator s).getD "") :: flattenEntriesFuel fuel args ss
termination_by ss => (fuel, sizeOf ss)

end

/-- Flattens a value with the given pair separator. -/
def flattenWith (v : Spec) (args : List Spec) (sep : String) : Option String :=
  flattenFuel (callDepth v args) args sep v

/-- Flattens a value with the default pair separator. -/
def flatten (v : Spec) (args : List Spec) : Option String :=
  flattenWith v args defaultSeparator

/-- Flattens each item and joins the texts with single spaces, as for a list. -/
def flattenItems (items : List Spec) (args : List Spec) : String :=
  " ".intercalate (items.map fun s => (flatten s args).getD "")

/-- Flattens key and value pairs as a mapping with those entries. -/
def flattenEntries (entries : List (String × Spec)) (args : List Spec) (sep : String) : String :=
  " ".intercalate ((Name.sortEntries (entries.map fun e => (e.1, (flatten e.2 args).getD ""))).map
    fun e => e.1 ++ sep ++ e.2)

end Markup.Spec
