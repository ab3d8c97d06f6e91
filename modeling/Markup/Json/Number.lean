import Markup.Decimal.Layout

/-!
# JSON numbers

A JSON number is kept as an integer when its literal has no fraction and no exponent and it
fits 64 bits (unsigned when non-negative, signed when negative), and as the nearest double
otherwise.

Its text, used for text nodes, attribute values and every flattened value:

* an integer is written in decimal;
* zero, of either sign, is `0`;
* a whole double below `10 ^ 21` in magnitude is written as its exact integer value;
* any other double is written with its shortest digits in positional notation.
-/

namespace Markup

/-- A number read from JSON. -/
inductive Number where
  /-- An integer literal that fits 64 bits. -/
  | int (i : Int)
  /-- Any other number, as the nearest double. -/
  | float (f : Float)

namespace Number

open Decimal

/-- An integer in decimal, with a minus sign when negative. -/
def intText (i : Int) : String :=
  if i < 0 then "-" ++ natDigits i.natAbs else natDigits i.toNat

/-- The exact value of `mant * 2 ^ exp` when it is a whole number. -/
def wholeValue? (mant : Nat) (exp : Int) : Option Nat :=
  if exp ≥ 0 then some (mant * Nat.pow 2 exp.toNat)
  else if mant % Nat.pow 2 (-exp).toNat = 0 then some (mant / Nat.pow 2 (-exp).toNat)
  else none

/-- The text of a double: `0` for zero, the exact integer for a whole value below
`10 ^ 21`, else the shortest digits in positional notation. -/
def floatText (f : Float) : String :=
  match decode f with
  | none => if f.isNaN then "NaN" else if f > 0 then "Infinity" else "-Infinity"
  | some b =>
    if b.mant = 0 then "0"
    else
      let sign := if b.negative then "-" else ""
      match wholeValue? b.mant b.exp with
      | some n => if n < Nat.pow 10 21 then sign ++ natDigits n else sign ++ (shortest .up b.mant b.exp).positional
      | none => sign ++ (shortest .up b.mant b.exp).positional

/-- The text of a number in specs, text nodes and attribute values. -/
def toText : Number → String
  | .int i => intText i
  | .float f => floatText f

/-- The text of a double as error messages quote it: shortest digits, a tie going to the
even digit, positional near one and with an exponent far from it. -/
def floatQuote (f : Float) : String :=
  match decode f with
  | none => if f.isNaN then "NaN" else if f > 0 then "inf" else "-inf"
  | some b =>
    let sign := if b.negative then "-" else ""
    if b.mant = 0 then sign ++ "0.0" else sign ++ (shortest .even b.mant b.exp).scientific

end Number

end Markup
