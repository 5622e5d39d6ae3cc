import ClusterGate.Proofs.Text.Numeral
import Mathlib.Data.Nat.Digits.Defs

/-!
# Numerals of 64 bits

What is read as a number of 64 bits is a run of decimal digits, behind a plus sign or not, that denotes
one. Main statement: `word?_eq_some_iff`.
-/

namespace ClusterGate.Text

variable {text : String} {digits : List Char} {n : Nat}

/-- The text is one or more decimal digits, behind a plus sign or not, and this is its number. -/
def Denotes (text : String) (n : Nat) : Prop :=
  ∃ digits : List Char, digits ≠ [] ∧ (∀ c ∈ digits, '0' ≤ c ∧ c ≤ '9') ∧
    (text.toList = digits ∨ text.toList = '+' :: digits) ∧
    Nat.ofDigits 10 (digits.reverse.map fun c => c.toNat - '0'.toNat) = n

theorem digitsValue_eq_ofDigits (cs : List Char) :
    digitsValue cs = Nat.ofDigits 10 (cs.reverse.map digitValue) := by
  induction cs using List.reverseRecOn with
  | nil => rfl
  | append_singleton front c ih =>
    rw [digitsValue_concat, ih, List.reverse_append, List.reverse_singleton, List.singleton_append,
      List.map_cons, Nat.ofDigits_cons, Nat.add_comm]

/-- What stands behind a plus sign, if there is one. -/
def unsigned : List Char → List Char
  | '+' :: rest => rest
  | cs => cs

theorem word?_eq (text : String) :
    word? text = if unsigned text.toList ≠ [] ∧ (unsigned text.toList).all isDigit ∧
        digitsValue (unsigned text.toList) ≤ maxWord
      then some (digitsValue (unsigned text.toList)) else none := rfl

theorem unsigned_cases (cs : List Char) : cs = unsigned cs ∨ cs = '+' :: unsigned cs := by
  unfold unsigned
  split
  next => exact Or.inr rfl
  next => exact Or.inl rfl

theorem unsigned_of_digits (h : ∀ c ∈ digits, '0' ≤ c ∧ c ≤ '9') : unsigned digits = digits := by
  unfold unsigned
  split
  next rest => exact absurd (h '+' List.mem_cons_self).1 (by decide)
  next => rfl

theorem isDigit_iff {c : Char} : isDigit c = true ↔ '0' ≤ c ∧ c ≤ '9' := by
  rw [isDigit, Bool.and_eq_true, decide_eq_true_iff, decide_eq_true_iff]

theorem word?_toString (h : n ≤ maxWord) : word? (toString n) = some n := by
  have hdigits := List.all_eq_true.mp (toDigits_all_isDigit n)
  rw [word?_eq, toList_toString, unsigned_of_digits fun c hc => isDigit_iff.mp (hdigits c hc),
    digitsValue_toDigits, if_pos ⟨Nat.toDigits_ne_nil, toDigits_all_isDigit n, h⟩]

theorem word?_eq_some_iff : word? text = some n ↔ Denotes text n ∧ n < 2 ^ 64 := by
  rw [word?_eq, Option.ite_none_right_eq_some]
  constructor
  · rintro ⟨⟨hne, hdigits, hmax⟩, hn⟩
    cases hn
    refine ⟨⟨_, hne, fun c hc => ?_, unsigned_cases text.toList, (digitsValue_eq_ofDigits _).symm⟩,
      Nat.lt_succ_of_le hmax⟩
    exact isDigit_iff.mp (List.all_eq_true.mp hdigits c hc)
  · rintro ⟨⟨digits, hne, hdigits, htext, rfl⟩, hlt⟩
    have hunsigned : unsigned text.toList = digits := by
      rcases htext with heq | heq
      · rw [heq, unsigned_of_digits hdigits]
      · rw [heq]
        rfl
    have hvalue := digitsValue_eq_ofDigits digits
    have hmax : digitsValue digits ≤ maxWord := by
      rw [hvalue]
      exact Nat.le_of_lt_succ hlt
    rw [hunsigned]
    refine ⟨⟨hne, List.all_eq_true.mpr fun c hc => isDigit_iff.mpr (hdigits c hc), hmax⟩, ?_⟩
    exact congrArg some hvalue

end ClusterGate.Text
