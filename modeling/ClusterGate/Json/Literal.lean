import ClusterGate.Json.Doc
import ClusterGate.Text.Basic

/-!
# Number literals

A literal without fraction and exponent that fits 64 bits is a whole number; every other literal,
and minus zero, is a double. Of a double, the first digits that together fit 64 bits are its
significand: further whole digits only raise the exponent, further fraction digits are dropped.
-/

namespace ClusterGate.Json

structure Literal where
  negative : Bool
  whole : List Char
  fraction : Option (List Char)
  /-- Whether the exponent is negative, and its digits. -/
  exponent : Option (Bool × List Char)
deriving Repr

namespace Literal

open Text

/-- Takes digits while the number fits 64 bits; returns it and the digits left over. -/
def significantPrefix (n : Nat) : List Char → Nat × List Char
  | [] => (n, [])
  | c :: rest =>
    if 10 * n + digitValue c ≤ maxWord then significantPrefix (10 * n + digitValue c) rest
    else (n, c :: rest)

def decimal (l : Literal) : Nat × Int :=
  let (head, extra) := significantPrefix 0 l.whole
  let fraction := l.fraction.getD []
  let (significand, dropped) := significantPrefix head fraction
  let written : Int := match l.exponent with
    | none => 0
    | some (true, digits) => -(digitsValue digits : Int)
    | some (false, digits) => digitsValue digits
  (significand, extra.length - ((fraction.length - dropped.length : Nat) : Int) + written)

def double? (l : Literal) : Option Double :=
  let (significand, exponent) := l.decimal
  (Double.ofDecimal? significand exponent).map fun units => ⟨l.negative, units⟩

def read (l : Literal) : Doc :=
  let n := digitsValue l.whole
  if l.fraction.isNone && l.exponent.isNone && !l.negative && n ≤ maxWord then .int n
  else if l.fraction.isNone && l.exponent.isNone && l.negative && 0 < n && n ≤ maxWord / 2 + 1
  then .int (-(n : Int))
  else match l.double? with
    | some d => .double d
    | none => .unreadable

end Literal

end ClusterGate.Json
