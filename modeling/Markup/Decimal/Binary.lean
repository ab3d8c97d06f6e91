/-!
# Binary floating point values

An IEEE 754 double is a sign and a value `m * 2 ^ e` with a 53-bit significand. This module
reads a `Float` back as sign, significand and exponent (`Float.decode`), and builds the
double nearest to `m * 2 ^ e` with ties going to the even significand (`Float.ofBinary`),
both from the bits of the value in exact `Nat` arithmetic.
-/

namespace Markup.Decimal

/-- A finite double taken apart: the value is `(-1) ^ sign * mant * 2 ^ exp`. -/
structure Binary where
  negative : Bool
  mant : Nat
  exp : Int
  deriving DecidableEq, Repr

/-- The width of the stored significand field. -/
def fieldBits : Nat := 52

/-- The least exponent, that of the subnormal values. -/
def leastExp : Int := -1074

/-- Reads a finite double as sign, significand and exponent; `none` for an infinity or a
NaN. The significand of a normal value carries its hidden leading bit. -/
def decode (f : Float) : Option Binary :=
  let bits : Nat := f.toBits.toNat
  let negative : Bool := bits / Nat.pow 2 63 % 2 == 1
  let biased : Nat := bits / Nat.pow 2 fieldBits % Nat.pow 2 11
  let field : Nat := bits % Nat.pow 2 fieldBits
  if biased == 2047 then none
  else if biased == 0 then some ⟨negative, field, leastExp⟩
  else some ⟨negative, field + Nat.pow 2 fieldBits, (biased : Int) - 1075⟩

/-- `m / 2 ^ s` rounded to the nearest integer, a tie going to the even one. -/
def roundShift (m s : Nat) : Nat :=
  if s = 0 then m
  else
    let q := m / Nat.pow 2 s
    let r := m % Nat.pow 2 s
    let half := Nat.pow 2 (s - 1)
    if r > half || (r == half && q % 2 == 1) then q + 1 else q

/-- The bits of the non-negative double nearest to `m * 2 ^ e`, ties to even; values past
the largest double give the bits of infinity. -/
def binaryBits (m : Nat) (e : Int) : Nat :=
  if m = 0 then 0
  else
    let len : Int := (Nat.log2 m + 1 : Nat)
    -- the biased exponent of a normal result
    let biased : Int := len - 1 + e + 1023
    if biased ≥ 1 then
      let shift : Int := len - 53
      let sig :=
        if shift ≤ 0 then m * Nat.pow 2 (-shift).toNat else roundShift m shift.toNat
      let (sig, biased) := if sig = Nat.pow 2 53 then (Nat.pow 2 52, biased + 1) else (sig, biased)
      if biased ≥ 2047 then 2047 * Nat.pow 2 fieldBits
      else biased.toNat * Nat.pow 2 fieldBits + (sig - Nat.pow 2 fieldBits)
    else
      -- a subnormal value counts in units of 2 ^ -1074
      let shift : Int := leastExp - e
      if shift ≤ 0 then m * Nat.pow 2 (-shift).toNat else roundShift m shift.toNat

/-- The double nearest to `m * 2 ^ e`, ties to even, with the given sign. -/
def ofBinary (negative : Bool) (m : Nat) (e : Int) : Float :=
  let bits := binaryBits m e + (if negative then Nat.pow 2 63 else 0)
  Float.ofBits bits.toUInt64

/-- The double nearest to a natural number. -/
def ofNat (n : Nat) : Float :=
  ofBinary false n 0

end Markup.Decimal
