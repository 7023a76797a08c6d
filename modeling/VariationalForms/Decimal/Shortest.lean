import VariationalForms.Binary64

/-! The shortest decimal of a float.
The reals that round to one float form an interval. Decimal grids are tried from coarse to fine, and
the first that meets the interval has the fewest digits; of two of its points the nearer is taken,
and the upper one from the middle.
-/

set_option autoImplicit false

namespace VariationalForms

structure Decimal where
  mantissa : Nat
  exponent : Int
  deriving DecidableEq, Repr

namespace Decimal

/-- The reals that round to one float, in units of two to the power `exponent`. The ends belong to
it when `closed`. -/
structure RoundingInterval where
  low : Nat
  middle : Nat
  high : Nat
  exponent : Int
  closed : Bool
  deriving DecidableEq, Repr

namespace RoundingInterval

/-- The gap below a power of two is half the gap above it, except for the smallest floats. -/
def ofFinite (mantissa : Nat) (exponent : Int) : RoundingInterval where
  low := if mantissa = 1 <<< 52 ∧ -1074 < exponent then 4 * mantissa - 1 else 4 * mantissa - 2
  middle := 4 * mantissa
  high := 4 * mantissa + 2
  exponent := exponent - 2
  closed := mantissa % 2 = 0

def gridUnit (i : RoundingInterval) (k : Int) : Nat × Nat :=
  (Nat.pow 10 (-k).toNat <<< i.exponent.toNat, Nat.pow 10 k.toNat <<< (-i.exponent).toNat)

def holds (i : RoundingInterval) (k : Int) (d : Nat) : Bool :=
  let (num, den) := i.gridUnit k
  if i.closed then i.low * num ≤ d * den && d * den ≤ i.high * num
  else i.low * num < d * den && d * den < i.high * num

/-- The point of the grid in the interval that is nearest to its float. -/
def onGrid? (i : RoundingInterval) (k : Int) : Option Nat :=
  let (num, den) := i.gridUnit k
  let d := i.middle * num / den
  match i.holds k d, i.holds k (d + 1) with
  | true, true => some (if 2 * (i.middle * num) < (2 * d + 1) * den then d else d + 1)
  | true, false => some d
  | false, true => some (d + 1)
  | false, false => none

def topExponent (i : RoundingInterval) : Int :=
  (i.middle.log2 + 1 + i.exponent) * 30103 / 100000 + 1

def exact (i : RoundingInterval) : Decimal :=
  let places := (-i.exponent).toNat
  ⟨(i.middle <<< i.exponent.toNat) * Nat.pow 5 places, Int.negOfNat places⟩

/-- Seventeen digits tell floats apart, so twenty grids suffice. -/
def shortest (i : RoundingInterval) : Decimal :=
  let tried := (List.range 20).findSome? fun (n : Nat) =>
    (i.onGrid? (i.topExponent - n)).map fun d => ⟨d, i.topExponent - n⟩
  tried.getD i.exact

example : (ofFinite 1 (-1074)).shortest = ⟨5, -324⟩ := by decide +kernel

example : (ofFinite (1 <<< 52) (-77)).shortest = ⟨29802322387695313, -24⟩ := by decide +kernel

end RoundingInterval

end Decimal

end VariationalForms
