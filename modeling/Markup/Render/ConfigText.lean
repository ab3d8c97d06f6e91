import Markup.Render.Config
import Markup.Json.Reader

/-!
# Render settings from text

Settings files are decoded straight from their text, value by value, so each failure is
reported at the place where it was noticed: `unknown field \`x\`, expected ... at line 1
column 9`.

The places follow the reader's cursor. A syntax failure is placed as the JSON reader places
it. A value of the wrong kind is placed after the value when the value is a scalar (it is
read to be named in the message), and at the value when it is an array or an object (these
are not read). A key that is not a setting, or a setting given twice, is placed after the
key and the blanks that follow it. The array form reads up to four values in key order;
anything after them is trailing characters.

A choice is a string, or an object whose one key is the choice and whose value is null;
anything else where a choice belongs is not a value at all (`expected value`), and the key
of the object form is read as any key is, so it must be a string.
-/

namespace Markup.Config

open Json

/-- What went wrong in a settings text. -/
inductive Fault where
  /-- The text is not JSON, or not JSON of the settings' shape. -/
  | malformed (code : SyntaxCode)
  /-- A value does not fit its setting. -/
  | problem (p : Problem)

/-- A fault with the line and the byte column where it was noticed. -/
structure TextError where
  fault : Fault
  line : Nat
  column : Nat

/-- The cause, then the place. -/
def TextError.message (e : TextError) : String :=
  let cause := match e.fault with
    | .malformed code => code.message
    | .problem p => p.message
  cause ++ " at line " ++ Decimal.natDigits e.line ++ " column " ++ Decimal.natDigits e.column

/-- A syntax failure of the JSON reader as a settings failure. -/
def TextError.ofSyntax (e : SyntaxError) : TextError :=
  ⟨.malformed e.code, e.line, e.column⟩

/-- A decoding step: a value and the cursor after it, or a placed failure. -/
abbrev Decode (α : Type) := Except TextError (α × Cursor)

/-- A problem placed after the bytes read so far. -/
def problemAt (c : Cursor) (p : Problem) : TextError :=
  ⟨.problem p, c.line, c.column⟩

/-- A syntax failure placed after the bytes read so far. -/
def syntaxAt (c : Cursor) (code : SyntaxCode) : TextError :=
  .ofSyntax (c.fail code)

/-- A syntax failure placed after the next byte. -/
def syntaxNext (c : Cursor) (code : SyntaxCode) : TextError :=
  .ofSyntax (c.failNext code)

/-- Lifts a step of the JSON reader. -/
def lift {α : Type} (r : Read α) : Decode α :=
  match r with
  | .ok v => .ok v
  | .error e => .error (.ofSyntax e)

/-- The failure for a value of the wrong kind at the cursor: a scalar is read and named,
placed after it; an array or an object is named and placed at its first byte; anything
else is no value. -/
def wrongKind (c : Cursor) (expected : String) : TextError :=
  let named (r : Read Json) : TextError :=
    match r with
    | .ok (v, c) => problemAt c (.invalidType (.ofJson v) expected)
    | .error e => .ofSyntax e
  match c.peek with
  | some 110 => named (Reader.word [117, 108, 108] .null c.bump)
  | some 116 => named (Reader.word [114, 117, 101] (.bool true) c.bump)
  | some 102 => named (Reader.word [97, 108, 115, 101] (.bool false) c.bump)
  | some 45 => named ((Reader.number false c.bump).map fun (n, c) => (.number n, c))
  | some 34 => named ((Reader.string c.bump).map fun (s, c) => (.string s, c))
  | some 91 => problemAt c (.invalidType .seq expected)
  | some 123 => problemAt c (.invalidType .map expected)
  | some b =>
    if Cursor.isDigit b then named ((Reader.number true c).map fun (n, c) => (.number n, c))
    else syntaxNext c .expectedValue
  | none => syntaxNext c .expectedValue

/-- A non-negative integer that fits 64 bits. -/
def sizeValue (c : Cursor) : Decode Nat :=
  let c := c.skipBlank
  let judge (r : Read Number) : Decode Nat :=
    match r with
    | .error e => .error (.ofSyntax e)
    | .ok (.int i, c) =>
      if i ≥ 0 then .ok (i.toNat, c) else .error (problemAt c (.invalidValue (.signed i) "usize"))
    | .ok (.float f, c) => .error (problemAt c (.invalidType (.float f) "usize"))
  match c.peek with
  | none => .error (syntaxNext c .eofValue)
  | some 45 => judge (Reader.number false c.bump)
  | some b => if Cursor.isDigit b then judge (Reader.number true c) else .error (wrongKind c "usize")

/-- A size, or none for null. -/
def optSizeValue (c : Cursor) : Decode (Option Nat) :=
  let c := c.skipBlank
  match c.peek with
  | some 110 => (lift (Reader.word [117, 108, 108] .null c.bump)).map fun (_, c) => (none, c)
  | _ => (sizeValue c).map fun (n, c) => (some n, c)

/-- A boolean. -/
def boolValue (c : Cursor) : Decode Bool :=
  let c := c.skipBlank
  match c.peek with
  | none => .error (syntaxNext c .eofValue)
  | some 116 => (lift (Reader.word [114, 117, 101] .null c.bump)).map fun (_, c) => (true, c)
  | some 102 => (lift (Reader.word [97, 108, 115, 101] .null c.bump)).map fun (_, c) => (false, c)
  | some _ => .error (wrongKind c "a boolean")

/-- The name of a choice: a string among `names`. -/
def choiceName (names : List String) (c : Cursor) : Decode String :=
  let c := c.skipBlank
  match c.peek with
  | none => .error (syntaxNext c .eofValue)
  | some 34 =>
    match lift (Reader.string c.bump) with
    | .ok (s, c) => if names.contains s then .ok (s, c) else .error (problemAt c (.unknownVariant s names))
    | .error e => .error e
  | some _ => .error (wrongKind c "variant identifier")

/-- The key of a choice written as an object, just after its opening brace: the name of
the choice in quotes, as any key must be. -/
def choiceKey (names : List String) (c : Cursor) : Decode String :=
  let c := c.skipBlank
  match c.peek with
  | some 34 => choiceName names c
  | some _ => .error (syntaxNext c .keyMustBeString)
  | none => .error (syntaxNext c .eofObject)

/-- The colon between a key and its value. -/
def colon (c : Cursor) : Decode Unit :=
  let c := c.skipBlank
  match c.peek with
  | some 58 => .ok ((), c.bump)
  | some _ => .error (syntaxNext c .expectedColon)
  | none => .error (syntaxNext c .eofObject)

/-- The null after the key of a choice written as an object. -/
def unitValue (c : Cursor) : Decode Unit :=
  let c := c.skipBlank
  match c.peek with
  | none => .error (syntaxNext c .eofValue)
  | some 110 => (lift (Reader.word [117, 108, 108] .null c.bump)).map fun (_, c) => ((), c)
  | some _ => .error (wrongKind c "unit")

/-- A choice among `names`: a string, or `{"name": null}`. -/
def choiceValue (names : List String) (c : Cursor) : Except TextError (String × Cursor) := do
  let c := c.skipBlank
  match c.peek with
  | some 123 =>
    let (name, c) ← choiceKey names c.bump
    let ((), c) ← colon c
    let ((), c) ← unitValue c
    let c := c.skipBlank
    match c.peek with
    | some 125 => return (name, c.bump)
    | some _ => throw (syntaxAt c .expectedValue)
    | none => throw (syntaxAt c .eofObject)
  | some 34 => choiceName names c
  | some _ => throw (syntaxNext c .expectedValue)
  | none => throw (syntaxNext c .eofValue)

/-- Reads the setting at a position among the keys into the settings. -/
def readSetting (cfg : RenderConfig) (i : Nat) (c : Cursor) : Decode RenderConfig :=
  match i with
  | 0 => (choiceValue policyNames c).map fun (s, c) =>
    ({ cfg with policy := if s == "strict" then .strict else .permissive }, c)
  | 1 => (optSizeValue c).map fun (n, c) => ({ cfg with indent := n }, c)
  | 2 => (boolValue c).map fun (b, c) => ({ cfg with declaration := b }, c)
  | _ => (choiceValue rootNames c).map fun (s, c) =>
    ({ cfg with root := if s == "fragment" then .fragment else .document }, c)

/-- How reading the entries of a settings object ended: at its closing brace (not yet
read), with a placed failure, or with a problem about a key that is placed later. -/
inductive EntriesEnd where
  | done (cfg : RenderConfig) (c : Cursor)
  | failed (e : TextError)
  | keyProblem (p : Problem) (c : Cursor)

/-- Reads the entries of a settings object; `seen` holds the positions of the keys read. -/
def readEntries (first : Bool) (seen : List Nat) (cfg : RenderConfig) (c : Cursor) :
    Nat → EntriesEnd
  | 0 => .failed (syntaxAt c .recursionLimit)
  | fuel + 1 =>
    let c := c.skipBlank
    let next : Except TextError (Option Cursor) :=
      match c.peek with
      | some 125 => .ok none
      | some 44 =>
        if first then .ok (some c)
        else
          let c := c.bump.skipBlank
          match c.peek with
          | some 34 => .ok (some c)
          | some 125 => .error (syntaxNext c .trailingComma)
          | some _ => .error (syntaxNext c .keyMustBeString)
          | none => .error (syntaxNext c .eofValue)
      | some _ => if first then .ok (some c) else .error (syntaxNext c .expectedObjectCommaOrEnd)
      | none => .error (syntaxNext c .eofObject)
    match next with
    | .error e => .failed e
    | .ok none => .done cfg c
    | .ok (some c) =>
      match c.peek with
      | some 34 =>
        match lift (Reader.string c.bump) with
        | .error e => .failed e
        | .ok (key, c) =>
          match renderFields.idxOf? key with
          | none => .keyProblem (.unknownField key renderFields) c
          | some i =>
            if seen.contains i then .keyProblem (.duplicateField key) c
            else
              match colon c with
              | .error e => .failed e
              | .ok ((), c) =>
                match readSetting cfg i c with
                | .error e => .failed e
                | .ok (cfg, c) => readEntries false (i :: seen) cfg c fuel
      | some _ => .failed (syntaxNext c .keyMustBeString)
      | none => .failed (syntaxNext c .eofValue)

/-- Reads up to the four settings in key order from an array; missing ones keep their
defaults. -/
def readItems (i : Nat) (first : Bool) (cfg : RenderConfig) (c : Cursor) :
    Nat → Except TextError (RenderConfig × Cursor)
  | 0 => .ok (cfg, c)
  | n + 1 => do
    let c := c.skipBlank
    let next ← match c.peek with
      | some 93 => pure none
      | some 44 =>
        if first then pure (some c)
        else
          let c := c.bump.skipBlank
          match c.peek with
          | some 93 => throw (syntaxNext c .trailingComma)
          | some _ => pure (some c)
          | none => throw (syntaxNext c .eofValue)
      | some _ => if first then pure (some c) else throw (syntaxNext c .expectedListCommaOrEnd)
      | none => throw (syntaxNext c .eofList)
    match next with
    | none => return (cfg, c)
    | some c =>
      let (cfg, c) ← readSetting cfg i c
      readItems (i + 1) false cfg c n

/-- The closing bracket after the values of the array form. -/
def closeItems (c : Cursor) : Except TextError Cursor :=
  let c := c.skipBlank
  match c.peek with
  | some 93 => .ok c.bump
  | some 44 =>
    let c := c.bump.skipBlank
    match c.peek with
    | some 93 => .error (syntaxNext c .trailingComma)
    | _ => .error (syntaxNext c .trailingCharacters)
  | some _ => .error (syntaxNext c .trailingCharacters)
  | none => .error (syntaxNext c .eofList)

/-- The closing brace after the entries of the object form. -/
def closeEntries (c : Cursor) : Except TextError Cursor :=
  let c := c.skipBlank
  match c.peek with
  | some 125 => .ok c.bump
  | some 44 => .error (syntaxNext c .trailingComma)
  | some _ => .error (syntaxNext c .trailingCharacters)
  | none => .error (syntaxNext c .eofObject)

/-- Reads render settings: an object or an array of values. -/
def readSettings (c : Cursor) : Except TextError (RenderConfig × Cursor) := do
  let c := c.skipBlank
  match c.peek with
  | some 91 =>
    let (cfg, c) ← readItems 0 true {} c.bump 4
    let c ← closeItems c
    return (cfg, c)
  | some 123 =>
    match readEntries true [] {} c.bump (c.rest.length + 1) with
    | .failed e => throw e
    | .keyProblem p c => throw (problemAt c.skipBlank p)
    | .done cfg c =>
      let c ← closeEntries c
      return (cfg, c)
  | some _ => throw (wrongKind c "struct RenderConfig")
  | none => throw (syntaxNext c .eofValue)

/-- Reads render settings from a whole text; only blanks may follow them. -/
def renderOfText (text : String) : Except TextError RenderConfig := do
  let (cfg, c) ← readSettings (Cursor.ofString text)
  let c := c.skipBlank
  match c.peek with
  | none => return cfg
  | some _ => throw (syntaxNext c .trailingCharacters)

end Markup.Config
