import Markup.Decimal.Shortest

/-!
# Writing decimals

Two layouts of a decimal `digits * 10 ^ exp`:

* `positional`: all digits in place, with a point only where the value has a fraction and
  zeros standing in for a negative or large exponent (`0.0000001`, `1000000000000000000000`);
* `scientific`: positional while the point falls within the first sixteen places (and
  `.0` is kept for a whole number), otherwise one digit, a point, the other digits, `e`,
  and the exponent with its sign (`1.8446744073709552e+19`, `1e-7`).
-/

namespace Markup.Decimal

/-- A run of zeros. -/
def zeros (n : Nat) : String :=
  String.ofList (List.replicate n '0')

/-- The decimal digits of a natural number. -/
def natDigits (n : Nat) : String :=
  String.ofList (Nat.toDigits 10 n)

/-- The digits of `d` with the point after `point` of them; a point at or before the first
digit writes `0.` and zeros, one past the last writes zeros and no point. -/
def placePoint (s : String) (point : Int) : String :=
  let n : Int := s.length
  if point ≤ 0 then "0." ++ zeros (-point).toNat ++ s
  else if point < n then
    String.ofList (s.toList.take point.toNat) ++ "." ++ String.ofList (s.toList.drop point.toNat)
  else s ++ zeros (point - n).toNat

/-- Positional notation with no exponent, no trailing point and no trailing `.0`. -/
def Digits.positional (d : Digits) : String :=
  let s := natDigits d.digits
  placePoint s (s.length + d.exp)

/-- The exponent mark and a signed exponent. -/
def exponentText (e : Int) : String :=
  if e < 0 then "e-" ++ natDigits e.natAbs else "e+" ++ natDigits e.toNat

/-- Positional notation while the point stands among the first sixteen places and no more
than five zeros follow the point, else one digit before the point and an exponent. -/
def Digits.scientific (d : Digits) : String :=
  let s := natDigits d.digits
  let n : Int := s.length
  let point := n + d.exp
  if 0 ≤ d.exp ∧ point ≤ 16 then s ++ zeros d.exp.toNat ++ ".0"
  else if 0 < point ∧ point ≤ 16 then placePoint s point
  else if -5 < point ∧ point ≤ 0 then placePoint s point
  else
    let rest := String.ofList (s.toList.drop 1)
    let lead := String.ofList (s.toList.take 1)
    (if rest.isEmpty then lead else lead ++ "." ++ rest) ++ exponentText (point - 1)

end Markup.Decimal
