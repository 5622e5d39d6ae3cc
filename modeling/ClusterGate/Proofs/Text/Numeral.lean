import ClusterGate.Text.Basic
import Mathlib.Data.List.Induction

/-!
# Decimal numerals

The decimal text of a number consists of digits, has no leading zero, and denotes the number. No other
text of this kind does. Numbers of any size therefore compare as their texts do, of which a shorter one
comes first.
-/

namespace ClusterGate.Text

theorem isDigit_eq (c : Char) : isDigit c = c.isDigit := by
  simp [isDigit, Char.isDigit, Char.le_def]

theorem digitValue_digitChar {d : Nat} (h : d < 10) : digitValue d.digitChar = d :=
  Nat.toNat_digitChar_sub_48_of_lt_ten h

theorem digitsValue_concat (cs : List Char) (c : Char) :
    digitsValue (cs ++ [c]) = 10 * digitsValue cs + digitValue c := by
  simp [digitsValue, List.foldl_append]

theorem toList_toString (n : Nat) : (toString n).toList = Nat.toDigits 10 n := by simp

theorem digitsValue_toDigits (n : Nat) : digitsValue (Nat.toDigits 10 n) = n := by
  induction n using Nat.strongRecOn with
  | ind n ih =>
    by_cases h : n < 10
    · rw [Nat.toDigits_of_lt_base h]
      simp [digitsValue, digitValue_digitChar h]
    · rw [Nat.toDigits_of_base_le (by decide) (by omega), digitsValue_concat, ih _ (by omega),
        digitValue_digitChar (by omega)]
      omega

theorem toDigits_all_isDigit (n : Nat) : (Nat.toDigits 10 n).all isDigit = true := by
  rw [List.all_eq_true]
  intro c hc
  rw [isDigit_eq]
  exact Nat.isDigit_of_mem_toDigits (by decide) (by decide) hc

/-- Only the numeral of zero begins with a zero. -/
theorem head?_toDigits_ne_zero {n : Nat} (h : 0 < n) : (Nat.toDigits 10 n).head? ≠ some '0' := by
  induction n using Nat.strongRecOn with
  | ind n ih =>
    by_cases hn : n < 10
    · rw [Nat.toDigits_of_lt_base hn]
      simp only [List.head?_cons, ne_eq, Option.some.injEq, Nat.digitChar_eq_zero]
      omega
    · have hq := ih (n / 10) (by omega) (by omega)
      obtain ⟨c, cs, hc⟩ := List.exists_cons_of_ne_nil (Nat.toDigits_ne_nil (n := n / 10) (b := 10))
      rw [Nat.toDigits_of_base_le (by decide) (by omega), hc]
      simpa [hc] using hq

theorem digitChar_digitValue {c : Char} (h : isDigit c = true) : (digitValue c).digitChar = c := by
  have hrange : 48 ≤ c.toNat ∧ c.toNat ≤ 57 := by
    simpa [isDigit, Char.le_def, UInt32.le_iff_toNat_le] using h
  show (c.toNat - 48).digitChar = c
  apply Char.toNat_inj.mp
  rw [Nat.toNat_digitChar_of_lt_ten (by omega)]
  omega

/-- A run of digits without a leading zero is the decimal text of the number that it denotes. -/
theorem toDigits_digitsValue {cs : List Char} (hne : cs ≠ []) (hdigits : ∀ c ∈ cs, isDigit c = true)
    (hlead : cs.head? = some '0' → cs = ['0']) : Nat.toDigits 10 (digitsValue cs) = cs := by
  induction cs using List.reverseRecOn with
  | nil => contradiction
  | append_singleton front c ih =>
    have hc : isDigit c = true := hdigits c (by simp)
    have hvalue : digitValue c < 10 := by
      have hrange : 48 ≤ c.toNat ∧ c.toNat ≤ 57 := by
        simpa [isDigit, Char.le_def, UInt32.le_iff_toNat_le] using hc
      show c.toNat - 48 < 10
      omega
    rw [digitsValue_concat]
    by_cases hfront : front = []
    · subst hfront
      have hzero : digitsValue [] = 0 := rfl
      rw [hzero, Nat.mul_zero, Nat.zero_add, Nat.toDigits_of_lt_base hvalue, digitChar_digitValue hc]
      rfl
    · -- what stands before the last digit has no leading zero, hence is not zero
      have hhead : front.head? ≠ some '0' := by
        intro hzero
        have hall := hlead (by rw [List.head?_append, hzero]; rfl)
        have hlength := congrArg List.length hall
        have hpos := List.length_pos_iff.mpr hfront
        simp only [List.length_append, List.length_singleton] at hlength
        omega
      have hdenoted := ih hfront (fun d hd => hdigits d (List.mem_append_left _ hd))
        (fun hzero => absurd hzero hhead)
      have hpos : 0 < digitsValue front := by
        by_contra hzero
        rw [Nat.eq_zero_of_not_pos hzero] at hdenoted
        exact hhead (by rw [← hdenoted]; rfl)
      rw [Nat.toDigits_of_base_le (by decide) (by omega)]
      have hquotient : (10 * digitsValue front + digitValue c) / 10 = digitsValue front := by omega
      have hremainder : (10 * digitsValue front + digitValue c) % 10 = digitValue c := by omega
      rw [hquotient, hremainder, hdenoted, digitChar_digitValue hc]

/-! ### Order -/

theorem append_lt_append {xs ys : List Char} (h : xs < ys) (hlength : xs.length = ys.length)
    (us vs : List Char) : xs ++ us < ys ++ vs := by
  induction h with
  | nil => cases hlength
  | rel hlt => exact .rel hlt
  | cons _ ih => exact .cons (ih (Nat.succ.inj hlength))

theorem digitChar_lt : ∀ d < 10, ∀ c < d, c.digitChar < d.digitChar := by decide

/-- Of two numbers with equally many digits the smaller one has the earlier numeral. -/
theorem toDigits_lt {m n : Nat} (h : m < n)
    (hlength : (Nat.toDigits 10 m).length = (Nat.toDigits 10 n).length) :
    Nat.toDigits 10 m < Nat.toDigits 10 n := by
  induction n using Nat.strongRecOn generalizing m with
  | ind n ih =>
    by_cases hm : m < 10
    · have hn : n < 10 := by
        rw [Nat.toDigits_of_lt_base hm] at hlength
        exact (Nat.length_toDigits_le_iff (k := 1) (by decide) Nat.one_pos).mp (Nat.le_of_eq hlength.symm)
      rw [Nat.toDigits_of_lt_base hm, Nat.toDigits_of_lt_base hn]
      exact .rel (digitChar_lt n hn m h)
    · rw [Nat.toDigits_of_base_le (n := m) (by decide) (by omega),
        Nat.toDigits_of_base_le (n := n) (by decide) (by omega)] at hlength ⊢
      have hfront : (Nat.toDigits 10 (m / 10)).length = (Nat.toDigits 10 (n / 10)).length := by
        simpa using hlength
      have hquotient : m / 10 < n / 10 ∨ m / 10 = n / 10 ∧ m % 10 < n % 10 := by omega
      rcases hquotient with hlt | ⟨heq, hlt⟩
      · exact append_lt_append (ih (n / 10) (by omega) hlt hfront) hfront _ _
      · rw [heq]
        exact List.append_left_lt (.rel (digitChar_lt _ (by omega) _ hlt))

/-- Numbers compare as the lengths of their numerals do, and as the numerals themselves if these are
equally long. -/
theorem compare_eq_toString (m n : Nat) :
    compare m n = (compare (toString m).length (toString n).length).then
      (compare (toString m) (toString n)) := by
  have hlength : ∀ k : Nat, (toString k).length = (Nat.toDigits 10 k).length := fun k => by
    rw [← String.length_toList, toList_toString]
  have hlt : ∀ {m n : Nat}, m < n →
      (compare (toString m).length (toString n).length).then
        (compare (toString m) (toString n)) = .lt := by
    intro m n h
    have hpos : 0 < (Nat.toDigits 10 n).length := List.length_pos_iff.mpr Nat.toDigits_ne_nil
    have hbound : n < 10 ^ (Nat.toDigits 10 n).length :=
      (Nat.length_toDigits_le_iff (by decide) hpos).mp (Nat.le_refl _)
    have hle := (Nat.length_toDigits_le_iff (n := m) (by decide) hpos).mpr (Nat.lt_trans h hbound)
    rw [Ordering.then_eq_lt, hlength, hlength, Nat.compare_eq_lt, Nat.compare_eq_eq]
    rcases Nat.lt_or_eq_of_le hle with hshorter | hsame
    · exact Or.inl hshorter
    · refine Or.inr ⟨hsame, compareOfLessAndEq_eq_lt.mpr (?_)⟩
      show (toString m).toList < (toString n).toList
      rw [toList_toString, toList_toString]
      exact toDigits_lt h hsame
  rcases Nat.lt_trichotomy m n with h | rfl | h
  · rw [hlt h, Nat.compare_eq_lt.mpr h]
  · simp [Std.ReflCmp.compare_self]
  · have hswap := congrArg Ordering.swap (hlt h)
    rw [Ordering.swap_then, ← Std.OrientedCmp.eq_swap, ← Std.OrientedCmp.eq_swap] at hswap
    rw [hswap, Nat.compare_eq_gt.mpr h]
    rfl

end ClusterGate.Text
