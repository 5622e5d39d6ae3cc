import ClusterGate.Json.Double

/-!
# The shortest decimal of a double

A double is written with the fewest digits that read back as the same double; of several such
decimals the nearest is taken, and of two equally near the one with an even last digit. The decimals
with `n` digits form a grid, and only the two neighbours of the value on the grid need a look.
-/

namespace ClusterGate.Double

/-- The exponent of the leading digit of `units · 2^-1074`, for numbers below one: tries the powers
from ten up. -/
def exponentBelow (units : Nat) : Nat → Nat → Nat
  | 0, j => j
  | fuel + 1, j => if one ≤ units * Nat.pow 10 j then j else exponentBelow units fuel (j + 1)

def leadingExponent (units : Nat) : Int :=
  if one ≤ units then ((Nat.toDigits 10 (units / one)).length : Int) - 1
  else -(exponentBelow units 330 1 : Int)

structure Decimal where
  significand : Nat
  exponent : Int
deriving DecidableEq, Repr, Inhabited

/-- A decimal as a quotient of units: numerator and denominator. -/
def Decimal.quotient (d : Decimal) : Nat × Nat :=
  match d.exponent with
  | .ofNat e => (d.significand * Nat.pow 10 e * one, 1)
  | .negSucc e => (d.significand * one, Nat.pow 10 (e + 1))

/-- The reals that round to a double, in quarters of a unit: lower end, upper end, and whether the
ends belong to them. -/
def interval (units : Nat) : Nat × Nat × Bool :=
  let step := spacing units
  let below := if units = step * Nat.pow 2 52 ∧ 1 < step then step else 2 * step
  (4 * units - below, 4 * units + 2 * step, (units / step) % 2 == 0)

def readsBack (units : Nat) (d : Decimal) : Bool :=
  let (low, high, closed) := interval units
  let (num, den) := d.quotient
  if closed then decide (low * den ≤ 4 * num ∧ 4 * num ≤ high * den)
  else decide (low * den < 4 * num ∧ 4 * num < high * den)

/-- The distance of a decimal from the double, over the decimal's denominator. -/
def distance (units : Nat) (d : Decimal) : Nat :=
  let (num, den) := d.quotient
  (num - units * den) + (units * den - num)

/-- The grid point at or below the double on the grid of step `10^exponent`. -/
def gridFloor (units : Nat) (exponent : Int) : Nat :=
  match exponent with
  | .ofNat e => units / (Nat.pow 10 e * one)
  | .negSucc e => units * Nat.pow 10 (e + 1) / one

/-- The better of the two neighbours on one grid, if any of them reads back. -/
def onGrid? (units : Nat) (exponent : Int) : Option Decimal :=
  let low : Decimal := ⟨gridFloor units exponent, exponent⟩
  let high : Decimal := ⟨gridFloor units exponent + 1, exponent⟩
  match readsBack units low, readsBack units high with
  | true, true =>
    if distance units low < distance units high then some low
    else if distance units high < distance units low then some high
    else if low.significand % 2 = 0 then some low else some high
  | true, false => some low
  | false, true => some high
  | false, false => none

/-- The first grid with a decimal that reads back, from `digits` digits on. -/
def searchGrids (units : Nat) (leading : Int) : Nat → Nat → Decimal
  | 0, digits => ⟨gridFloor units (leading - digits + 1), leading - digits + 1⟩
  | fuel + 1, digits =>
    match onGrid? units (leading - digits + 1) with
    | some d => d
    | none => searchGrids units leading fuel (digits + 1)

def shortest (units : Nat) : Decimal := searchGrids units (leadingExponent units) 17 1

/-- The digits of a decimal without the zeros at its end. -/
def Decimal.digits (d : Decimal) : List Char :=
  ((Nat.toDigits 10 d.significand).reverse.dropWhile (· == '0')).reverse

def Decimal.leading (d : Decimal) : Int :=
  d.exponent + ((Nat.toDigits 10 d.significand).length : Int) - 1

/-- Digits with the point after the digit of exponent zero; one zero stands for an empty part. -/
def positional (digits : List Char) : Int → List Char
  | .negSucc e => '0' :: '.' :: List.replicate e '0' ++ digits
  | .ofNat e =>
    let whole := digits.take (e + 1) ++ List.replicate (e + 1 - digits.length) '0'
    let rest := digits.drop (e + 1)
    whole ++ '.' :: (if rest = [] then ['0'] else rest)

/-- Digits with the point after the first, and a signed exponent. -/
def scientific (digits : List Char) (e : Int) : List Char :=
  let sign := if e < 0 then '-' else '+'
  let mark := 'e' :: sign :: Nat.toDigits 10 e.natAbs
  match digits with
  | [] => mark
  | [d] => d :: mark
  | d :: rest => d :: '.' :: rest ++ mark

/-- The text of a double. Leading digits of exponent -5 to 15 are written positionally. -/
def text (d : Double) : List Char :=
  let sign := if d.negative then ['-'] else []
  if d.units = 0 then sign ++ ['0', '.', '0']
  else
    let decimal := shortest d.units
    let e := decimal.leading
    if -5 ≤ e ∧ e ≤ 15 then sign ++ positional decimal.digits e
    else sign ++ scientific decimal.digits e

end ClusterGate.Double
