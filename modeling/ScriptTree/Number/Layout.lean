import ScriptTree.Number.Decimal

/-!
# Layout of decimals

How a decimal that is not written as a whole number is laid out. With `e` the power of ten of its
first digit, it is written in positional form, always with a fraction, if `-5 ≤ e ≤ 15`, and else as
`d.ddde±x`, without padding and with the sign of the exponent always written.
-/

namespace ScriptTree

namespace Decimal

/-- The digits of the coefficient without the zeros at their end. -/
def significantDigits (x : Decimal) : List Char :=
  match ((Nat.toDigits 10 x.coefficient).reverse.dropWhile (· == '0')).reverse with
  | [] => ['0']
  | ds => ds

/-- The power of ten that the first digit stands for. -/
def magnitude (x : Decimal) : Int :=
  digitCount x.coefficient - 1 + x.exponent

/-- Digits in positional form, the first one standing for `10 ^ magnitude`. -/
def positional (digits : List Char) (magnitude : Int) : List Char :=
  if 0 ≤ magnitude then
    let whole := magnitude.toNat + 1
    let fraction := digits.drop whole
    digits.take whole ++ List.replicate (whole - digits.length) '0' ++
      '.' :: (if fraction.isEmpty then ['0'] else fraction)
  else '0' :: '.' :: List.replicate ((-magnitude).toNat - 1) '0' ++ digits

/-- Digits in scientific form, the first one standing for `10 ^ magnitude`. -/
def scientific (digits : List Char) (magnitude : Int) : List Char :=
  let fraction := digits.drop 1
  digits.take 1 ++ (if fraction.isEmpty then [] else '.' :: fraction) ++
    'e' :: (if 0 ≤ magnitude then '+' else '-') :: Nat.toDigits 10 magnitude.natAbs

/-- The text of a decimal. -/
def layout (x : Decimal) : List Char :=
  if -5 ≤ x.magnitude ∧ x.magnitude ≤ 15 then positional x.significantDigits x.magnitude
  else scientific x.significantDigits x.magnitude

end Decimal

end ScriptTree
