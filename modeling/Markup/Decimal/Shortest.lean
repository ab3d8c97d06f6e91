import Markup.Decimal.Binary

/-!
# Shortest decimal digits

Every positive double `v = m * 2 ^ e` owns the interval of reals that round to it: half the
gap to each neighbour on either side, with both ends included when `m` is even. The shortest
decimal form of `v` is a decimal `d * 10 ^ k` with the fewest significant digits inside that
interval; of two such decimals the one nearer to `v` wins. An exact tie goes to the larger
one, or, by the other rule, to the one whose last digit is even.

The search tries one, two, up to seventeen significant digits. For `n` digits the grid is
`10 ^ (t - n)`, where `10 ^ (t - 1) ≤ v < 10 ^ t`, and only the two grid points around `v`
can lie in the interval. All comparisons are made on integers scaled by a common power of
two and of ten, so nothing is rounded.
-/

namespace Markup.Decimal

/-- How a tie between two candidates equally near the value is broken. -/
inductive Tie where
  /-- The larger candidate wins. -/
  | up
  /-- The candidate whose last digit is even wins. -/
  | even
  deriving DecidableEq, Repr

/-- A positive decimal `digits * 10 ^ exp`. -/
structure Digits where
  digits : Nat
  exp : Int
  deriving DecidableEq, Repr

/-- The rounding interval of a positive double, every bound a numerator over `2 ^ scale`:
the value, the low end, the high end, and whether the ends belong to it. -/
structure Interval where
  value : Nat
  low : Nat
  high : Nat
  scale : Nat
  inclusive : Bool
  deriving Repr

/-- The rounding interval of `mant * 2 ^ exp`. The gap below is half the gap above at the
smallest significand of a binade, except in the lowest binade. -/
def Interval.ofBinary (mant : Nat) (exp : Int) : Interval :=
  let scale := (2 - exp).toNat
  -- numerators of quarter units `2 ^ (exp - 2)` over `2 ^ scale`
  let unit := Nat.pow 2 (exp - 2 + scale).toNat
  let lowQuarters := if mant = Nat.pow 2 fieldBits ∧ exp > leastExp then 4 * mant - 1 else 4 * mant - 2
  { value := 4 * mant * unit
    low := lowQuarters * unit
    high := (4 * mant + 2) * unit
    scale := scale
    inclusive := mant % 2 == 0 }

namespace Interval

/-- Compares `d * 10 ^ k` with the bound `x / 2 ^ scale`: both sides are brought to the
common denominator `2 ^ scale * 10 ^ max (-k) 0`. -/
def cmpGrid (i : Interval) (d : Nat) (k : Int) (x : Nat) : Ordering :=
  compare (d * Nat.pow 2 i.scale * Nat.pow 10 k.toNat) (x * Nat.pow 10 (-k).toNat)

/-- Whether `d * 10 ^ k` lies in the interval. -/
def contains (i : Interval) (d : Nat) (k : Int) : Bool :=
  let aboveLow := match i.cmpGrid d k i.low with
    | .gt => true
    | .eq => i.inclusive
    | .lt => false
  let belowHigh := match i.cmpGrid d k i.high with
    | .lt => true
    | .eq => i.inclusive
    | .gt => false
  aboveLow && belowHigh

/-- The grid point `d * 10 ^ k` at or below the value: `d` is the value over `10 ^ k`,
rounded down. -/
def floorOnGrid (i : Interval) (k : Int) : Nat :=
  i.value * Nat.pow 10 (-k).toNat / (Nat.pow 2 i.scale * Nat.pow 10 k.toNat)

/-- Whether `10 ^ t` is above the value. -/
def belowPow (i : Interval) (t : Int) : Bool :=
  i.cmpGrid 1 t i.value == .gt

/-- The decimal order of magnitude: the least `t` with the value below `10 ^ t`, found
from an estimate by at most `fuel` steps each way. -/
def magnitude (i : Interval) (estimate : Int) : Nat → Int
  | 0 => estimate
  | fuel + 1 =>
    if !i.belowPow estimate then i.magnitude (estimate + 1) fuel
    else if i.belowPow (estimate - 1) then i.magnitude (estimate - 1) fuel
    else estimate

/-- Of the two grid points around the value with `n` significant digits, the one in the
interval, the nearer one when both are, and the one the rule picks when both are as near. -/
def pick (i : Interval) (tie : Tie) (k : Int) : Option Nat :=
  let lo := i.floorOnGrid k
  let hi := lo + 1
  match i.contains lo k, i.contains hi k with
  | true, true =>
    -- distances to the value, over the common denominator
    let below := i.value * Nat.pow 10 (-k).toNat - lo * Nat.pow 2 i.scale * Nat.pow 10 k.toNat
    let above := hi * Nat.pow 2 i.scale * Nat.pow 10 k.toNat - i.value * Nat.pow 10 (-k).toNat
    if below < above then some lo
    else if above < below then some hi
    else match tie with
      | .up => some hi
      | .even => if lo % 2 = 0 then some lo else some hi
  | true, false => some lo
  | false, true => some hi
  | false, false => none

/-- The first grid, from `n` significant digits up, that holds a point of the interval. -/
def search (i : Interval) (tie : Tie) (t : Int) (n : Nat) : Nat → Option Digits
  | 0 => none
  | fuel + 1 =>
    match i.pick tie (t - n) with
    | some d => some ⟨d, t - n⟩
    | none => i.search tie t (n + 1) fuel

end Interval

/-- Removes trailing zero digits, raising the exponent to match. -/
def Digits.normalize (d : Digits) : Nat → Digits
  | 0 => d
  | fuel + 1 =>
    if d.digits ≠ 0 ∧ d.digits % 10 = 0 then
      Digits.normalize ⟨d.digits / 10, d.exp + 1⟩ fuel
    else d

/-- The shortest decimal that reads back as `mant * 2 ^ exp`, for `mant > 0`, ties broken
by the rule. -/
def shortest (tie : Tie) (mant : Nat) (exp : Int) : Digits :=
  let i := Interval.ofBinary mant exp
  -- 30103 / 100000 is just below log10 2
  let estimate : Int := ((Nat.log2 mant + 1 : Nat) + exp) * 30103 / 100000
  let t := i.magnitude estimate 8
  match i.search tie t 1 17 with
  | some d => d.normalize 20
  | none => (Digits.mk mant 0).normalize 20

end Markup.Decimal
