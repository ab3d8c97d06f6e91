import Markup.Json.Value

/-!
# Reading JSON text

A reader of JSON text over its UTF-8 bytes, with these rules:

* blanks are space, tab, line feed and carriage return;
* an integer literal with no fraction and no exponent is kept as an integer when it fits 64
  bits, unsigned if non-negative and signed if negative; `-0` is the double `-0.0`;
* any other number is `significand * 10 ^ exponent`, where the significand keeps the first
  digits that fit 64 bits and drops the others into the exponent; the double is the
  significand's nearest double times or over a power of ten, and a result past the largest
  double is an error, while one below the least is zero;
* strings may not hold control characters, escapes must be one of the JSON escapes, and a
  `\u` surrogate must be a leading one followed by a trailing one;
* arrays and objects may nest 127 deep;
* a failure names its cause and the line and column (counted in bytes) where it was seen.
-/

namespace Markup.Json

inductive SyntaxCode where
  | eofValue
  | eofList
  | eofObject
  | eofString
  | expectedValue
  | expectedIdent
  | expectedColon
  | expectedListCommaOrEnd
  | expectedObjectCommaOrEnd
  | keyMustBeString
  | trailingComma
  | trailingCharacters
  | invalidNumber
  | numberOutOfRange
  | invalidEscape
  | controlCharacter
  | recursionLimit
  | loneLeadingSurrogate
  | unexpectedEndOfHexEscape
  deriving DecidableEq, Repr

def SyntaxCode.message : SyntaxCode → String
  | .eofValue => "EOF while parsing a value"
  | .eofList => "EOF while parsing a list"
  | .eofObject => "EOF while parsing an object"
  | .eofString => "EOF while parsing a string"
  | .expectedValue => "expected value"
  | .expectedIdent => "expected ident"
  | .expectedColon => "expected `:`"
  | .expectedListCommaOrEnd => "expected `,` or `]`"
  | .expectedObjectCommaOrEnd => "expected `,` or `\x7d`"
  | .keyMustBeString => "key must be a string"
  | .trailingComma => "trailing comma"
  | .trailingCharacters => "trailing characters"
  | .invalidNumber => "invalid number"
  | .numberOutOfRange => "number out of range"
  | .invalidEscape => "invalid escape"
  | .controlCharacter => "control character (\\u0000-\\u001F) found while parsing a string"
  | .recursionLimit => "recursion limit exceeded"
  | .loneLeadingSurrogate => "lone leading surrogate in hex escape"
  | .unexpectedEndOfHexEscape => "unexpected end of hex escape"

/-- A failure with the line and the byte column where it was seen. -/
structure SyntaxError where
  code : SyntaxCode
  line : Nat
  column : Nat
  deriving DecidableEq, Repr

/-- The cause, then the place: `expected value at line 1 column 8`. -/
def SyntaxError.message (e : SyntaxError) : String :=
  e.code.message ++ " at line " ++ Decimal.natDigits e.line ++ " column " ++
    Decimal.natDigits e.column

/-- The bytes still to read, with the line and the column of the next one. -/
structure Cursor where
  rest : List UInt8
  line : Nat
  column : Nat

namespace Cursor

def ofString (s : String) : Cursor :=
  ⟨s.toUTF8.toList, 1, 0⟩

def peek (c : Cursor) : Option UInt8 :=
  c.rest.head?

/-- Moves past the next byte; a line feed starts a new line. -/
def bump (c : Cursor) : Cursor :=
  match c.rest with
  | [] => c
  | b :: bs => if b == 10 then ⟨bs, c.line + 1, 0⟩ else ⟨bs, c.line, c.column + 1⟩

theorem length_bump_lt {c : Cursor} {b : UInt8} {t : List UInt8} (h : c.rest = b :: t) :
    c.bump.rest.length < c.rest.length := by
  simp only [bump, h]
  split <;> simp

def fail (c : Cursor) (code : SyntaxCode) : SyntaxError :=
  ⟨code, c.line, c.column⟩

def failNext (c : Cursor) (code : SyntaxCode) : SyntaxError :=
  (c.bump).fail code

def toEnd (c : Cursor) : Cursor :=
  match _h : c.rest with
  | [] => c
  | _ :: _ => toEnd c.bump
termination_by c.rest.length
decreasing_by exact length_bump_lt _h

def skipBlank (c : Cursor) : Cursor :=
  match _h : c.rest with
  | b :: _ => if b == 32 || b == 10 || b == 9 || b == 13 then skipBlank c.bump else c
  | [] => c
termination_by c.rest.length
decreasing_by exact length_bump_lt _h

def isDigit (b : UInt8) : Bool :=
  48 ≤ b && b ≤ 57

def skipDigits (c : Cursor) : Cursor :=
  match _h : c.rest with
  | b :: _ => if isDigit b then skipDigits c.bump else c
  | [] => c
termination_by c.rest.length
decreasing_by exact length_bump_lt _h

end Cursor

abbrev Read (α : Type) := Except SyntaxError (α × Cursor)

namespace Reader

open Cursor

def digitVal (b : UInt8) : Nat :=
  b.toNat - 48

def maxUnsigned : Nat := Nat.pow 2 64 - 1

def maxExponent : Int := 2147483647

/-- An exponent held to the 32-bit signed range, as a saturating sum holds it. -/
def clamp32 (e : Int) : Int :=
  max (-maxExponent - 1) (min maxExponent e)

def pow10 (k : Nat) : Float :=
  Decimal.ofBinary false (Nat.pow 5 k) k

def pow10Table : Array Float :=
  (Array.range 309).map pow10

def signed (positive : Bool) (f : Float) : Float :=
  if positive then f else -f

/-- Scales `f` by `10 ^ e`: a power past the table divides by `10 ^ 308` first while the
value is not zero; `none` when the result is past the largest double. -/
def scale (f : Float) (e : Int) : Nat → Option Float
  | 0 => some f
  | fuel + 1 =>
    match pow10Table[e.natAbs]? with
    | some pow =>
      if e ≥ 0 then
        let g := f * pow
        if g.isInf then none else some g
      else some (f / pow)
    | none =>
      if f == 0.0 then some f
      else if e ≥ 0 then none
      else scale (f / pow10 308) (e + 308) fuel

/-- The double for `significand * 10 ^ exponent` with a sign, or `none` when it is out of
range. -/
def fromParts (positive : Bool) (significand : Nat) (exponent : Int) : Option Float :=
  (scale (Decimal.ofNat significand) exponent 8).map (signed positive)

def finish (positive : Bool) (significand : Nat) (exponent : Int) (c : Cursor) : Read Float :=
  match fromParts positive significand exponent with
  | some f => .ok (f, c)
  | none => .error (c.fail .numberOutOfRange)

/-- The digits of an exponent: the value read, or `none` after the digit that takes it past
the 32-bit signed range. -/
def exponentDigits (e : Nat) (c : Cursor) : Option Nat × Cursor :=
  match h : c.rest with
  | b :: _ =>
    if isDigit b then
      let e' := e * 10 + digitVal b
      if (e' : Int) > maxExponent then (none, c.bump) else exponentDigits e' c.bump
    else (some e, c)
  | [] => (some e, c)
termination_by c.rest.length
decreasing_by exact length_bump_lt h

def exponentPart (positive : Bool) (significand : Nat) (start : Int) (c : Cursor) : Read Float :=
  let c := c.bump
  let (up, c) : Bool × Cursor :=
    match c.peek with
    | some 43 => (true, c.bump)
    | some 45 => (false, c.bump)
    | _ => (true, c)
  match c.rest with
  | [] => .error (c.fail .eofValue)
  | b :: _ =>
    let c := c.bump
    if !isDigit b then .error (c.fail .invalidNumber)
    else
      match exponentDigits (digitVal b) c with
      | (some e, c) => finish positive significand (clamp32 (if up then start + e else start - e)) c
      | (none, c) =>
        if significand ≠ 0 && up then .error (c.fail .numberOutOfRange)
        else .ok (signed positive 0.0, c.skipDigits)

def isExponentMark (b : UInt8) : Bool :=
  b == 101 || b == 69

def afterOverflow (positive : Bool) (significand : Nat) (exponent : Int) (c : Cursor) :
    Read Float :=
  let c := c.skipDigits
  match c.peek with
  | some b => if isExponentMark b then exponentPart positive significand exponent c
      else finish positive significand exponent c
  | none => finish positive significand exponent c

/-- The digits of a fraction: the significand, the count of digits taken as a negative
exponent, whether a digit did not fit, and the cursor. -/
def fractionDigits (significand : Nat) (after : Int) (c : Cursor) : Nat × Int × Bool × Cursor :=
  match h : c.rest with
  | b :: _ =>
    if isDigit b then
      if significand * 10 + digitVal b > maxUnsigned then (significand, after, true, c)
      else fractionDigits (significand * 10 + digitVal b) (after - 1) c.bump
    else (significand, after, false, c)
  | [] => (significand, after, false, c)
termination_by c.rest.length
decreasing_by exact length_bump_lt h

def fractionPart (positive : Bool) (significand : Nat) (before : Int) (c : Cursor) : Read Float :=
  match fractionDigits significand 0 c.bump with
  | (significand, after, true, c) => afterOverflow positive significand (before + after) c
  | (significand, after, false, c) =>
    if after == 0 then
      match c.peek with
      | some _ => .error (c.failNext .invalidNumber)
      | none => .error (c.fail .eofValue)
    else
      match c.peek with
      | some b => if isExponentMark b then exponentPart positive significand (before + after) c
          else finish positive significand (before + after) c
      | none => finish positive significand (before + after) c

/-- Integer digits past those that fit: each one raises the exponent. -/
def longInteger (positive : Bool) (significand : Nat) (exponent : Int) (c : Cursor) :
    Read Float :=
  match h : c.rest with
  | b :: _ =>
    if isDigit b then longInteger positive significand (exponent + 1) c.bump
    else if b == 46 then fractionPart positive significand exponent c
    else if isExponentMark b then exponentPart positive significand exponent c
    else finish positive significand exponent c
  | [] => finish positive significand exponent c
termination_by c.rest.length
decreasing_by exact length_bump_lt h

/-- The number after its integer digits: a fraction, an exponent, or an integer that is
kept as one when it fits. -/
def afterInteger (positive : Bool) (significand : Nat) (c : Cursor) : Read Number :=
  let asFloat (r : Read Float) : Read Number := r.map fun (f, c) => (.float f, c)
  match c.peek with
  | some 46 => asFloat (fractionPart positive significand 0 c)
  | some b =>
    if isExponentMark b then asFloat (exponentPart positive significand 0 c)
    else if positive then .ok (.int significand, c)
    else if significand = 0 then .ok (.float (-0.0), c)
    else if significand ≤ Nat.pow 2 63 then .ok (.int (-(significand : Int)), c)
    else .ok (.float (-(Decimal.ofNat significand)), c)
  | none =>
    if positive then .ok (.int significand, c)
    else if significand = 0 then .ok (.float (-0.0), c)
    else if significand ≤ Nat.pow 2 63 then .ok (.int (-(significand : Int)), c)
    else .ok (.float (-(Decimal.ofNat significand)), c)

def integerDigits (positive : Bool) (significand : Nat) (c : Cursor) : Read Number :=
  match h : c.rest with
  | b :: _ =>
    if isDigit b then
      if significand * 10 + digitVal b > maxUnsigned then
        (longInteger positive significand 0 c).map fun (f, c) => (.float f, c)
      else integerDigits positive (significand * 10 + digitVal b) c.bump
    else afterInteger positive significand c
  | [] => afterInteger positive significand c
termination_by c.rest.length
decreasing_by exact length_bump_lt h

/-- A number after its sign: one leading zero, or a digit from 1 to 9 and more digits. -/
def number (positive : Bool) (c : Cursor) : Read Number :=
  match c.rest with
  | [] => .error (c.fail .eofValue)
  | b :: _ =>
    let c := c.bump
    if b == 48 then
      match c.peek with
      | some d => if isDigit d then .error (c.failNext .invalidNumber) else afterInteger positive 0 c
      | none => afterInteger positive 0 c
    else if isDigit b then integerDigits positive (digitVal b) c
    else .error (c.fail .invalidNumber)

def hexVal (b : UInt8) : Option Nat :=
  if 48 ≤ b && b ≤ 57 then some (b.toNat - 48)
  else if 65 ≤ b && b ≤ 70 then some (b.toNat - 55)
  else if 97 ≤ b && b ≤ 102 then some (b.toNat - 87)
  else none

def hexEscape (c : Cursor) : Read Nat :=
  match c.rest with
  | a :: b :: d :: e :: _ =>
    let c' := c.bump.bump.bump.bump
    match hexVal a, hexVal b, hexVal d, hexVal e with
    | some w, some x, some y, some z => .ok (((w * 16 + x) * 16 + y) * 16 + z, c')
    | _, _, _, _ => .error (c'.fail .invalidEscape)
  | _ => .error (c.toEnd.fail .eofString)

def pushCode (n : Nat) (acc : List UInt8) : List UInt8 :=
  (String.singleton (Char.ofNat n)).toUTF8.toList.reverse ++ acc

/-- A `\u` escape after its `u`: a character outside the surrogates, or a leading
surrogate followed by a `\u` escape of a trailing one. -/
def unicodeEscape (acc : List UInt8) (c : Cursor) : Except SyntaxError (List UInt8 × Cursor) := do
  let (n, c) ← hexEscape c
  if 0xDC00 ≤ n && n ≤ 0xDFFF then throw (c.fail .loneLeadingSurrogate)
  if n < 0xD800 || n > 0xDBFF then return (pushCode n acc, c)
  match c.rest with
  | [] => throw (c.fail .eofString)
  | b :: _ =>
    if b != 92 then throw (c.bump.fail .unexpectedEndOfHexEscape)
    let c := c.bump
    match c.rest with
    | [] => throw (c.fail .eofString)
    | b :: _ =>
      if b != 117 then throw (c.bump.fail .unexpectedEndOfHexEscape)
      let (n2, c) ← hexEscape c.bump
      if n2 < 0xDC00 || n2 > 0xDFFF then throw (c.fail .loneLeadingSurrogate)
      return (pushCode ((n - 0xD800) * 1024 + (n2 - 0xDC00) + 0x10000) acc, c)

def escape (acc : List UInt8) (c : Cursor) : Read (List UInt8) :=
  match c.rest with
  | [] => .error (c.fail .eofString)
  | b :: _ =>
    let c := c.bump
    match b with
    | 34 => .ok (34 :: acc, c)
    | 92 => .ok (92 :: acc, c)
    | 47 => .ok (47 :: acc, c)
    | 98 => .ok (8 :: acc, c)
    | 102 => .ok (12 :: acc, c)
    | 110 => .ok (10 :: acc, c)
    | 114 => .ok (13 :: acc, c)
    | 116 => .ok (9 :: acc, c)
    | 117 => unicodeEscape acc c
    | _ => .error (c.fail .invalidEscape)

/-- The rest of a string after its opening quote, collected as reversed bytes. -/
def stringBody (acc : List UInt8) (c : Cursor) : Nat → Read String
  | 0 => .error (c.toEnd.fail .eofString)
  | fuel + 1 =>
    match c.rest with
    | [] => .error (c.fail .eofString)
    | b :: _ =>
      if b == 34 then .ok ((String.fromUTF8? (ByteArray.mk acc.reverse.toArray)).getD "", c.bump)
      else if b == 92 then
        match escape acc c.bump with
        | .ok (acc, c) => stringBody acc c fuel
        | .error e => .error e
      else if b < 32 then .error (c.bump.fail .controlCharacter)
      else stringBody (b :: acc) c.bump fuel

def string (c : Cursor) : Read String :=
  stringBody [] c (c.rest.length + 1)

def word (expected : List UInt8) (v : Json) (c : Cursor) : Read Json :=
  match expected with
  | [] => .ok (v, c)
  | e :: es =>
    match c.rest with
    | [] => .error (c.fail .eofValue)
    | b :: _ => if b == e then word es v c.bump else .error (c.bump.fail .expectedIdent)

mutual

/-- A value; `depth` is the nesting still allowed plus one. -/
def value (fuel depth : Nat) (c : Cursor) : Read Json :=
  match fuel with
  | 0 => .error (c.fail .recursionLimit)
  | fuel + 1 =>
    let c := c.skipBlank
    match c.rest with
    | [] => .error (c.fail .eofValue)
    | b :: _ =>
      if b == 110 then word [117, 108, 108] .null c.bump
      else if b == 116 then word [114, 117, 101] (.bool true) c.bump
      else if b == 102 then word [97, 108, 115, 101] (.bool false) c.bump
      else if b == 45 then (number false c.bump).map fun (n, c) => (.number n, c)
      else if Cursor.isDigit b then (number true c).map fun (n, c) => (.number n, c)
      else if b == 34 then (string c.bump).map fun (s, c) => (.string s, c)
      else if b == 91 then
        if depth ≤ 1 then .error (c.failNext .recursionLimit)
        else (items fuel (depth - 1) true [] c.bump).map fun (xs, c) => (.array xs, c)
      else if b == 123 then
        if depth ≤ 1 then .error (c.failNext .recursionLimit)
        else (entries fuel (depth - 1) true [] c.bump).map fun (es, c) => (.object es, c)
      else .error (c.failNext .expectedValue)

def items (fuel depth : Nat) (first : Bool) (acc : List Json) (c : Cursor) : Read (List Json) :=
  match fuel with
  | 0 => .error (c.fail .recursionLimit)
  | fuel + 1 =>
    let c := c.skipBlank
    match c.rest with
    | [] => .error (c.fail .eofList)
    | b :: _ =>
      if b == 93 then .ok (acc.reverse, c.bump)
      else if b == 44 && !first then
        let c := c.bump.skipBlank
        match c.rest with
        | [] => .error (c.fail .eofValue)
        | b :: _ =>
          if b == 93 then .error (c.failNext .trailingComma)
          else
            match value fuel depth c with
            | .ok (v, c) => items fuel depth false (v :: acc) c
            | .error e => .error e
      else if first then
        match value fuel depth c with
        | .ok (v, c) => items fuel depth false (v :: acc) c
        | .error e => .error e
      else .error (c.failNext .expectedListCommaOrEnd)

def entries (fuel depth : Nat) (first : Bool) (acc : List (String × Json)) (c : Cursor) :
    Read (List (String × Json)) :=
  match fuel with
  | 0 => .error (c.fail .recursionLimit)
  | fuel + 1 =>
    let c := c.skipBlank
    match c.rest with
    | [] => .error (c.fail .eofObject)
    | b :: _ =>
      if b == 125 then .ok (acc, c.bump)
      else if b == 44 && !first then
        let c := c.bump.skipBlank
        match c.rest with
        | [] => .error (c.fail .eofValue)
        | b :: _ =>
          if b == 34 then entry fuel depth acc c
          else if b == 125 then .error (c.failNext .trailingComma)
          else .error (c.failNext .keyMustBeString)
      else if first then
        if b == 34 then entry fuel depth acc c else .error (c.failNext .keyMustBeString)
      else .error (c.failNext .expectedObjectCommaOrEnd)

def entry (fuel depth : Nat) (acc : List (String × Json)) (c : Cursor) :
    Read (List (String × Json)) :=
  match fuel with
  | 0 => .error (c.fail .recursionLimit)
  | fuel + 1 =>
    match string c.bump with
    | .error e => .error e
    | .ok (key, c) =>
      let c := c.skipBlank
      match c.rest with
      | [] => .error (c.fail .eofObject)
      | b :: _ =>
        if b != 58 then .error (c.failNext .expectedColon)
        else
          match value fuel depth c.bump with
          | .ok (v, c) => entries fuel depth false (insertEntry acc key v) c
          | .error e => .error e

end

end Reader

/-- The nesting that reading allows: 127 arrays or objects inside each other. -/
def depthLimit : Nat := 128

/-- Reads a whole text as one JSON value; only blanks may follow it. -/
def parse (s : String) : Except SyntaxError Json := do
  let c := Cursor.ofString s
  let (v, c) ← Reader.value (2 * c.rest.length + 2) depthLimit c
  let c := c.skipBlank
  match c.rest with
  | [] => return v
  | _ :: _ => throw (c.failNext .trailingCharacters)

end Markup.Json
