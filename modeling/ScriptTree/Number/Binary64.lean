import ScriptTree.Number.Decimal

/-!
# Binary numbers of 64 bits

The numbers of the language are the double-precision numbers, of which a source can write those that
are not negative. A finite one is a significand below `2 ^ 53` times a power of two; the power is at
least `-1074`, and the significand is below `2 ^ 52` only if the power is `-1074`, so each number
has one form. `Decimal.toBinary64` rounds to the nearest number, and a tie to the even significand,
in exact arithmetic.
-/

namespace ScriptTree

/-- A double-precision number that is not negative. -/
inductive Binary64 where
  /-- The number `significand * 2 ^ exponent`. -/
  | finite (significand : Nat) (exponent : Int)
  | infinite
deriving DecidableEq

/-- The quotient rounded to the nearest whole number, a tie to the even one. -/
def roundQuotient (n d : Nat) : Nat :=
  let q := n / d
  let r := n % d
  if 2 * r < d ∨ (2 * r = d ∧ q % 2 = 0) then q else q + 1

/-- The largest `b` with `2 ^ b ≤ n / d`. -/
def floorLog2 (n d : Nat) : Int :=
  let b : Int := Int.ofNat n.log2 - Int.ofNat d.log2
  if d * Nat.pow 2 b.toNat ≤ n * Nat.pow 2 (-b).toNat then b else b - 1

namespace Binary64

/-- Zero. -/
def zero : Binary64 :=
  finite 0 (-1074)

/-- The form of `significand * 2 ^ exponent` for a rounded significand, which may have become
`2 ^ 53`; beyond the largest exponent it is infinite. -/
def normalize (significand : Nat) (exponent : Int) : Binary64 :=
  if significand = Nat.pow 2 53 then
    if exponent < 971 then finite (Nat.pow 2 52) (exponent + 1) else infinite
  else if exponent ≤ 971 then finite significand exponent
  else infinite

/-- The number nearest to the positive quotient `n / d`. -/
def ofQuotient (n d : Nat) : Binary64 :=
  let exponent := max (floorLog2 n d - 52) (-1074)
  normalize (roundQuotient (n * Nat.pow 2 (-exponent).toNat) (d * Nat.pow 2 exponent.toNat)) exponent

/-- Numerator and denominator of a finite number; an infinite one counts as zero. -/
def toQuotient : Binary64 → Nat × Nat
  | finite significand exponent => (significand * Nat.pow 2 exponent.toNat, Nat.pow 2 (-exponent).toNat)
  | infinite => (0, 1)

/-- The value of a finite number that is whole. -/
def toNat? : Binary64 → Option Nat
  | finite significand exponent =>
    if significand % Nat.pow 2 (-exponent).toNat = 0 then
      some (significand * Nat.pow 2 exponent.toNat / Nat.pow 2 (-exponent).toNat)
    else none
  | infinite => none

end Binary64

namespace Decimal

/-- Numerator and denominator. -/
def toQuotient (x : Decimal) : Nat × Nat :=
  (x.coefficient * Nat.pow 10 x.exponent.toNat, Nat.pow 10 (-x.exponent).toNat)

/-- The nearest double-precision number. What is at least `10 ^ 309` is infinite and what is below
`10 ^ (-324)` is zero, which is settled by the number of digits alone. -/
def toBinary64 (x : Decimal) : Binary64 :=
  if x.coefficient = 0 then .zero
  else
    let magnitude : Int := digitCount x.coefficient + x.exponent
    if 309 < magnitude then .infinite
    else if magnitude < -323 then .zero
    else .ofQuotient x.toQuotient.1 x.toQuotient.2

end Decimal

end ScriptTree
