import ScriptTree.Number.Binary64

/-!
# Shortest digits

The decimal with the fewest digits that still reads back as a given number, and of those with as
many digits the one nearest to it, a tie going to the even last digit. On each grid of decimals only
the two neighbours of the number are tried: if any point of the grid reads back, one of them does.
-/

namespace ScriptTree

/-- The largest `e` with `10 ^ e ≤ n / d`. -/
def floorLog10 (n d : Nat) : Int :=
  if d ≤ n then Int.ofNat (digitCount (n / d)) - 1
  else -Int.ofNat (digitCount ((d - 1) / n))

namespace Binary64

/-- A decimal of `count` digits that reads back as the number, if there is one: the nearest, or else
the neighbour on the other side. The first digit of the number stands for `10 ^ magnitude`. -/
def withDigits? (x : Binary64) (magnitude : Int) (count : Nat) : Option Decimal :=
  let exponent := magnitude + 1 - count
  let numerator := x.toQuotient.1 * Nat.pow 10 (-exponent).toNat
  let denominator := x.toQuotient.2 * Nat.pow 10 exponent.toNat
  let below := numerator / denominator
  [roundQuotient numerator denominator, below, below + 1].map (Decimal.mk · exponent)
    |>.find? (·.toBinary64 = x)

/-- The shortest decimal that reads back as a finite number. Seventeen digits are always enough. -/
def shortest (x : Binary64) : Decimal :=
  if x.toQuotient.1 = 0 then ⟨0, 0⟩
  else
    let magnitude := floorLog10 x.toQuotient.1 x.toQuotient.2
    ((List.range' 1 17).findSome? (x.withDigits? magnitude)).getD ⟨0, 0⟩

end Binary64

end ScriptTree
