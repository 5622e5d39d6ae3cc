import ClusterGate.Version.Basic

/-!
# Release precedence

Precedence is a lexicographic comparison, hence total and transitive. The line of a version comes
first in it, so that what lies between two versions of one line is on that line.
-/

namespace ClusterGate.Version

open Std

instance : OrientedCmp compareIdentifier where
  eq_swap {a b} := by
    unfold compareIdentifier
    cases isNumeric a <;> cases isNumeric b
    · exact OrientedOrd.eq_swap
    · rfl
    · rfl
    · exact OrientedOrd.eq_swap

instance : TransCmp compareIdentifier where
  isLE_trans {a b c} hab hbc := by
    unfold compareIdentifier at *
    cases ha : isNumeric a <;> cases hb : isNumeric b <;> cases hc : isNumeric c <;>
      simp only [ha, hb, hc] at *
    all_goals first | exact TransOrd.isLE_trans hab hbc | contradiction | rfl

theorem compareIdentifiers_eq : compareIdentifiers = List.compareLex compareIdentifier := by
  funext as bs
  induction as generalizing bs with
  | nil => cases bs <;> rfl
  | cons a as ih =>
    cases bs with
    | nil => rfl
    | cons b bs => rw [compareIdentifiers, List.compareLex_cons_cons, ih]

instance : TransCmp compareIdentifiers :=
  compareIdentifiers_eq ▸ inferInstanceAs (TransCmp (List.compareLex compareIdentifier))

theorem comparePre_eq : comparePre = compareLex (compareOn List.isEmpty) compareIdentifiers := by
  funext as bs
  cases as <;> cases bs <;> rfl

instance : TransCmp comparePre :=
  comparePre_eq ▸ inferInstanceAs (TransCmp (compareLex (compareOn List.isEmpty) compareIdentifiers))

instance : TransCmp fun a b : Version => comparePre a.pre b.pre where
  eq_swap {a b} := @OrientedCmp.eq_swap _ comparePre _ a.pre b.pre
  isLE_trans {a b c} := @TransCmp.isLE_trans _ comparePre _ a.pre b.pre c.pre

instance : TransCmp compare :=
  inferInstanceAs (TransCmp (compareLex (compareOn major) (compareLex (compareOn minor)
    (compareLex (compareOn patch) fun a b : Version => comparePre a.pre b.pre))))

theorem before_iff {a b : Version} : a.before b = true ↔ compare a b = .lt := by
  simp [before]

theorem not_before_iff {a b : Version} : b.before a = false ↔ (compare a b).isLE = true := by
  have hswap : compare b a = (compare a b).swap := OrientedCmp.eq_swap
  rw [← Bool.not_eq_true, before_iff, hswap]
  cases compare a b <;> decide

theorem not_before_trans {a b c : Version} (hab : b.before a = false) (hbc : c.before b = false) :
    c.before a = false := by
  rw [not_before_iff] at hab hbc ⊢
  exact TransCmp.isLE_trans hab hbc

theorem not_before_of_before {a b : Version} (h : a.before b = true) : b.before a = false := by
  rw [not_before_iff, before_iff.mp h]
  rfl

theorem before_irrefl (a : Version) : a.before a = false := by
  cases h : a.before a with
  | false => rfl
  | true => exact absurd (not_before_of_before h) (by simp [h])

theorem before_trans {a b c : Version} (hab : a.before b = true) (hbc : b.before c = true) :
    a.before c = true := by
  rw [before_iff] at hab hbc ⊢
  exact TransCmp.lt_trans hab hbc

/-! ### Lines -/

theorem sameLine_iff {a b : Version} :
    a.sameLine b = true ↔ a.major = b.major ∧ a.minor = b.minor := by
  simp [sameLine, line]

theorem sameLine_comm {a b : Version} : a.sameLine b = b.sameLine a := by
  rw [Bool.eq_iff_iff, sameLine_iff, sameLine_iff, eq_comm, eq_comm (a := a.minor)]

/-- Precedence looks at the line first. -/
theorem line_le_of_not_before {a b : Version} (h : b.before a = false) :
    a.major < b.major ∨ a.major = b.major ∧ a.minor ≤ b.minor := by
  rw [not_before_iff, compare, Ordering.isLE_then_iff_or, Ordering.isLE_then_iff_or] at h
  rcases h with hmajor | ⟨hmajor, hminor | ⟨hminor, _⟩⟩
  · exact Or.inl (Nat.compare_eq_lt.mp hmajor)
  · exact Or.inr ⟨Nat.compare_eq_eq.mp hmajor, Nat.le_of_lt (Nat.compare_eq_lt.mp hminor)⟩
  · exact Or.inr ⟨Nat.compare_eq_eq.mp hmajor, Nat.le_of_eq (Nat.compare_eq_eq.mp hminor)⟩

/-- What lies between two versions of one line is on that line. -/
theorem sameLine_of_between {a b c : Version} (hab : b.before a = false) (hbc : c.before b = false)
    (hac : a.sameLine c = true) : a.sameLine b = true := by
  have hlow := line_le_of_not_before hab
  have hhigh := line_le_of_not_before hbc
  rw [sameLine_iff] at hac ⊢
  omega

theorem sameLine_of_equal_rank {a b : Version} (hab : a.before b = false)
    (hba : b.before a = false) : a.sameLine b = true := by
  have hlow := line_le_of_not_before hab
  have hhigh := line_le_of_not_before hba
  rw [sameLine_iff]
  omega

theorem equal_rank_of_same {a b : Version} (h : a.same b = true) : compare a b = .eq := by
  simp only [same, Bool.and_eq_true, beq_iff_eq] at h
  obtain ⟨⟨⟨hmajor, hminor⟩, hpatch⟩, hpre⟩ := h
  have hself : compare a a = .eq := ReflCmp.compare_self
  simpa [compare, hmajor, hminor, hpatch, hpre] using hself

end ClusterGate.Version
