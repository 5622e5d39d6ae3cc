/-!
# Doubles

The finite double precision numbers, exactly: every one of them is a whole number of units of
2^-1074, with a sign. A quotient is rounded to the nearest double, ties to the even significand.
-/

namespace ClusterGate

/-- A finite double: a sign and a number of units of 2^-1074. -/
structure Double where
  negative : Bool
  units : Nat
deriving DecidableEq, Repr, Inhabited

namespace Double

/-- The number of units in one. -/
def one : Nat := Nat.pow 2 1074

def maxUnits : Nat := (Nat.pow 2 53 - 1) * Nat.pow 2 2045

/-- The distance of neighbouring doubles at and above a number of units. -/
def spacing (units : Nat) : Nat := Nat.pow 2 (units.log2 - 52)

/-- The multiple of the spacing nearest to a quotient; of two that are equally near, the one with an
even factor. -/
def nearest (num den : Nat) : Nat :=
  let step := spacing (num / den)
  let m := num / (den * step)
  let r := num % (den * step)
  let up := if 2 * r < den * step then 0 else if den * step < 2 * r then 1 else m % 2
  (m + up) * step

/-- The double nearest to a quotient of units, if it is finite. -/
def ofQuotient? (num den : Nat) : Option Nat :=
  let units := nearest num den
  if units ≤ maxUnits then some units else none

def unitsOfNat (n : Nat) : Nat := nearest (n * one) 1

/-- The double nearest to a power of ten, in units. -/
def unitsOfPower (e : Nat) : Nat := unitsOfNat (Nat.pow 10 e)

/-- Divides by a power of ten; past 10^308 in several divisions, each rounded, until nothing is
left. -/
def scaleDown (units e : Nat) : Nat :=
  if units = 0 then 0
  else if e ≤ 308 then nearest (units * one) (unitsOfPower e)
  else scaleDown (nearest (units * one) (unitsOfPower 308)) (e - 308)
termination_by e

/-- Multiplies by a power of ten, with one rounding; past the greatest double there is no result. -/
def scaleUp? (units e : Nat) : Option Nat :=
  if units = 0 then some 0
  else if e ≤ 308 then ofQuotient? (units * unitsOfPower e) one
  else none

/-- The units of a decimal `significand · 10^exponent`: the significand is rounded first, the scaled
value again. -/
def ofDecimal? (significand : Nat) (exponent : Int) : Option Nat :=
  match exponent with
  | .ofNat e => scaleUp? (unitsOfNat significand) e
  | .negSucc e => some (scaleDown (unitsOfNat significand) (e + 1))

/-- Equality of values: the two zeros are equal. -/
def same (a b : Double) : Bool :=
  a.units == b.units && (a.units == 0 || a.negative == b.negative)

end Double

end ClusterGate
