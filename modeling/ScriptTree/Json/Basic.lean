import ScriptTree.Number.Shortest

/-!
# JSON values

The values that trees and answers are written as. Members of an object keep their order.
-/

namespace ScriptTree

/-- A JSON value whose numbers are not negative. -/
inductive Json where
  | null
  | bool (value : Bool)
  /-- A whole number, written with its digits only. -/
  | integer (value : Nat)
  /-- A number written with a fraction or an exponent. -/
  | decimal (value : Decimal)
  | string (value : String)
  | array (items : List Json)
  | object (members : List (String × Json))
deriving Inhabited

namespace Json

/-- The largest whole number up to which all whole numbers are double-precision numbers. -/
def maxSafeInteger : Nat :=
  Nat.pow 2 53 - 1

/-- A number of the language: without a fraction if it is whole and not too large, as the shortest
decimal otherwise, and as null if it is infinite. -/
def ofBinary64 (x : Binary64) : Json :=
  match x with
  | .infinite => null
  | .finite .. => match x.toNat? with
    | some n => if n ≤ maxSafeInteger then integer n else decimal x.shortest
    | none => decimal x.shortest

end Json

end ScriptTree
