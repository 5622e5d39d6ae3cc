/-!
# Characters and pieces of a text

Letters and digits of ASCII, decimal numerals, blanks, and a text cut at every occurrence of a mark.
-/

namespace ClusterGate.Text

/-! ### ASCII -/

def lower (c : Char) : Char := if 'A' ≤ c ∧ c ≤ 'Z' then Char.ofNat (c.toNat + 32) else c

def sameIgnoringCase (a b : String) : Bool := a.toList.map lower == b.toList.map lower

def isDigit (c : Char) : Bool := '0' ≤ c && c ≤ '9'

def digitValue (c : Char) : Nat := c.toNat - '0'.toNat

def digitsValue (cs : List Char) : Nat := cs.foldl (fun n c => 10 * n + digitValue c) 0

/-- The greatest number of 64 bits, 2^64 - 1. -/
def maxWord : Nat := 18446744073709551615

/-- Reads an optional plus sign and one or more digits that denote a number of 64 bits. -/
def word? (s : String) : Option Nat :=
  let digits := match s.toList with
    | '+' :: rest => rest
    | cs => cs
  if digits ≠ [] ∧ digits.all isDigit ∧ digitsValue digits ≤ maxWord
  then some (digitsValue digits) else none

def hexValue? (c : Char) : Option Nat :=
  if '0' ≤ c ∧ c ≤ '9' then some (c.toNat - 48)
  else if 'a' ≤ c ∧ c ≤ 'f' then some (c.toNat - 87)
  else if 'A' ≤ c ∧ c ≤ 'F' then some (c.toNat - 55)
  else none

/-! ### Blanks

The characters with the Unicode property White_Space. -/

def isBlank (c : Char) : Bool :=
  let n := c.toNat
  (9 ≤ n && n ≤ 13) || n == 0x20 || n == 0x85 || n == 0xA0 || n == 0x1680 ||
  (0x2000 ≤ n && n ≤ 0x200A) || n == 0x2028 || n == 0x2029 || n == 0x202F || n == 0x205F ||
  n == 0x3000

def trim (cs : List Char) : List Char :=
  ((cs.dropWhile isBlank).reverse.dropWhile isBlank).reverse

/-! ### Pieces -/

/-- The pieces between the marks; there is one more of them than there are marks. -/
def pieces (mark : Char) : List Char → List (List Char)
  | [] => [[]]
  | c :: rest =>
    if c = mark then [] :: pieces mark rest
    else match pieces mark rest with
      | [] => [[c]]
      | piece :: others => (c :: piece) :: others

def joinPieces (mark : Char) : List (List Char) → List Char
  | [] => []
  | [piece] => piece
  | piece :: others => piece ++ mark :: joinPieces mark others

theorem pieces_ne_nil (mark : Char) (cs : List Char) : pieces mark cs ≠ [] := by
  cases cs with
  | nil => simp [pieces]
  | cons c rest =>
    rw [pieces]
    split
    · simp
    · split <;> simp

/-- Cutting loses nothing but the marks. -/
theorem joinPieces_pieces (mark : Char) (cs : List Char) :
    joinPieces mark (pieces mark cs) = cs := by
  induction cs with
  | nil => rfl
  | cons c rest ih =>
    rw [pieces]
    have hne := pieces_ne_nil mark rest
    revert ih hne
    cases pieces mark rest with
    | nil => simp
    | cons piece others =>
      intro ih _
      by_cases h : c = mark
      · simp [h, joinPieces, ih]
      · simp only [h, ↓reduceIte]
        cases others with
        | nil => simpa [joinPieces] using ih
        | cons _ _ => simpa [joinPieces] using ih

end ClusterGate.Text
