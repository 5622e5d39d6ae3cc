import ClusterGate.Text.Basic

/-!
# Hosts

Where a URL leads: a name, or an address of four or of sixteen bytes. Only names of ASCII have a reading
here, and of those no encodings of other names.
-/

namespace ClusterGate.Inventory

open Text

inductive Host where
  | name (s : String)
  | ipv4 (address : Nat)
  | ipv6 (groups : List Nat)
deriving DecidableEq, Repr

/-- The bytes of a text in which some are written as a percent sign and two hexadecimal digits. -/
def percentBytes : List Char → List UInt8
  | '%' :: a :: b :: rest => match hexValue? a, hexValue? b with
    | some m, some n => (16 * m + n).toUInt8 :: percentBytes rest
    | _, _ => '%'.toNat.toUInt8 :: percentBytes (a :: b :: rest)
  | c :: rest => String.utf8EncodeChar c ++ percentBytes rest
  | [] => []

def percentDecode? (cs : List Char) : Option String := String.fromUTF8? ⟨(percentBytes cs).toArray⟩

/-- The number that digits to a base denote; none denote zero. -/
def digitsIn? (base : Nat) (cs : List Char) : Option Nat :=
  cs.foldlM (fun n c => (hexValue? c).bind fun d => if d < base then some (base * n + d) else none) 0

namespace Host

/-- Characters that no name has. -/
def isForbidden (c : Char) : Bool :=
  c ≤ ' ' || '\x7f' ≤ c || "#/:<>?@[\\]^|%".toList.contains c

/-! ### Four bytes -/

/-- One number of an address: octal behind a zero, hexadecimal behind a zero and an x. -/
def number? : List Char → Option Nat
  | [] => none
  | '0' :: 'x' :: digits => digitsIn? 16 digits
  | '0' :: 'X' :: digits => digitsIn? 16 digits
  | '0' :: digit :: digits => digitsIn? 8 (digit :: digits)
  | digits => digitsIn? 10 digits

/-- The parts between points; a point at the end has nothing behind it. -/
def labels (cs : List Char) : List (List Char) :=
  let parts := pieces '.' cs
  if parts.getLast? = some [] then parts.dropLast else parts

/-- A name that ends in a number has to be an address. -/
def endsInNumber (cs : List Char) : Bool :=
  (labels cs).getLast?.any fun last => (last ≠ [] && last.all isDigit) || (number? last).isSome

/-- Up to four numbers; the last one stands for all the bytes that are left. -/
def ipv4? (cs : List Char) : Option Host := do
  let numbers ← (labels cs).mapM number?
  let last ← numbers.getLast?
  let front := numbers.dropLast
  let unit := Nat.pow 256 (4 - front.length)
  if front.length < 4 ∧ front.all (· ≤ 255) ∧ last < unit then
    return .ipv4 (front.foldl (256 * · + ·) 0 * unit + last)
  else none

/-! ### Sixteen bytes -/

def group? (cs : List Char) : Option Nat :=
  if cs ≠ [] ∧ cs.length ≤ 4 then digitsIn? 16 cs else none

/-- The last two groups of an address, written as four decimal numbers. -/
def lastGroups? (cs : List Char) : Option (List Nat) := do
  let numbers ← (pieces '.' cs).mapM fun part =>
    if part ≠ [] ∧ (part = ['0'] ∨ part.head? ≠ some '0') then digitsIn? 10 part else none
  match numbers with
  | [a, b, c, d] =>
    if numbers.all (· ≤ 255) then return [256 * a + b, 256 * c + d] else none
  | _ => none

def groups? (cs : List Char) : Option (List Nat) :=
  if cs = [] then some []
  else do
    let parts := pieces ':' cs
    let front ← parts.dropLast.mapM group?
    let last ← parts.getLast?
    let back ← if last.contains '.' then lastGroups? last else (group? last).map fun n => [n]
    return front ++ back

/-- What stands before and behind the first two colons in a row. -/
def cutAtDouble : List Char → Option (List Char × List Char)
  | ':' :: ':' :: rest => some ([], rest)
  | c :: rest => (cutAtDouble rest).map fun (before, behind) => (c :: before, behind)
  | [] => none

/-- Eight groups; two colons in a row stand for groups that are zero, at least one. -/
def ipv6? (cs : List Char) : Option Host :=
  match cutAtDouble cs with
  | none => ((groups? cs).filter fun groups => groups.length = 8).map .ipv6
  | some (before, behind) => do
    let front ← if before.contains '.' then none else groups? before
    let back ← groups? behind
    if front.length + back.length < 8 then
      return .ipv6 (front ++ List.replicate (8 - front.length - back.length) 0 ++ back)
    else none

/-! ### Names -/

/-- A name, or the address of four bytes that is written for it. -/
def ofName? (cs : List Char) : Option Host := do
  let name := (← percentDecode? cs).toList.map lower
  if name = [] ∨ name.any isForbidden ∨ (pieces '.' name).any "xn--".toList.isPrefixOf then none
  else if endsInNumber name then ipv4? name
  else return .name (String.ofList name)

end Host

/-- What stands before the path of a URL: who asks, the host, and its port if it is given. -/
structure Authority where
  user : List Char
  host : Host
  port : Option Nat
deriving Repr

namespace Authority

/-- What is behind a host: nothing, or a colon and perhaps a number of 16 bits. -/
def port? : List Char → Option (Option Nat)
  | [] => some none
  | ':' :: digits =>
    if digits.all isDigit ∧ digitsValue digits < 65536 then
      some (if digits = [] then none else some (digitsValue digits))
    else none
  | _ => none

def read? (cs : List Char) : Option Authority := do
  let parts := pieces '@' cs
  let user := joinPieces '@' parts.dropLast
  match ← parts.getLast? with
  | '[' :: rest => match rest.dropWhile (· ≠ ']') with
    | _ :: behind => return ⟨user, ← Host.ipv6? (rest.takeWhile (· ≠ ']')), ← port? behind⟩
    | [] => none
  | place => return ⟨user, ← Host.ofName? (place.takeWhile (· ≠ ':')), ← port? (place.dropWhile (· ≠ ':'))⟩

end Authority

end ClusterGate.Inventory
