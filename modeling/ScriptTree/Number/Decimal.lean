/-!
# Decimal numbers

The exact value of a number as it is written: a whole coefficient times a power of ten.
-/

namespace ScriptTree

/-- The number `coefficient * 10 ^ exponent`. -/
structure Decimal where
  coefficient : Nat
  exponent : Int
deriving DecidableEq

/-- The number that a row of digits stands for. -/
def digitsValue (cs : List Char) : Nat :=
  cs.foldl (fun n c => 10 * n + (c.toNat - '0'.toNat)) 0

/-- Number of decimal digits; zero has one. -/
def digitCount (n : Nat) : Nat :=
  (Nat.toDigits 10 n).length

/-- Digits and nothing else, as a number. -/
def digits? (cs : List Char) : Option Nat :=
  if !cs.isEmpty && cs.all Char.isDigit then some (digitsValue cs) else none

/-- What may follow the digits of a number: nothing, or a power of ten. -/
def exponent? : List Char → Option Int
  | [] => some 0
  | c :: cs =>
    if c == 'e' || c == 'E' then match cs with
      | '+' :: ds => (digits? ds).map Int.ofNat
      | '-' :: ds => (digits? ds).map fun n => -Int.ofNat n
      | ds => (digits? ds).map Int.ofNat
    else none

namespace Decimal

/-- Reads `digits`, then `.digits` if a dot follows, then an exponent if anything follows. -/
def ofChars? (cs : List Char) : Option Decimal :=
  let whole := cs.takeWhile Char.isDigit
  let behind := cs.dropWhile Char.isDigit
  let fraction := match behind with
    | '.' :: ds => ds.takeWhile Char.isDigit
    | _ => []
  let tail := match behind with
    | '.' :: ds => ds.dropWhile Char.isDigit
    | ds => ds
  if whole.isEmpty then none
  else (exponent? tail).map fun e => ⟨digitsValue (whole ++ fraction), e - fraction.length⟩

/-- Reads a number off its whole text. -/
def ofText? (text : String) : Option Decimal :=
  ofChars? text.toList

end Decimal

end ScriptTree
