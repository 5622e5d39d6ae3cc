import ClusterGate.Proofs.Version.Full
import ClusterGate.Proofs.Version.Order

/-!
# Equal rank

Lawful versions that stand at the same place in the order of precedence are the same release. Without
leading zeros a numeral is given by its value, so that identifiers of equal rank are equal texts.
-/

namespace ClusterGate.Version

open Std Text

variable {a b c v w : Version} {id other : String} {ids others : List String}

/-! ### Identifiers of equal rank -/

theorem digits_of_isNumeric (h : isNumeric id = true) : ∀ c ∈ id.toList, isDigit c = true := by
  rw [isNumeric, List.all_eq_true] at h
  exact h

theorem numeral_of_isNumeric (hid : Identifier id) (hpadded : ¬Padded id)
    (h : isNumeric id = true) : numeral (digitsValue id.toList) = id.toList := by
  have hdigits := digits_of_isNumeric h
  apply numeral_of_digits hid.some hdigits
  intro hzero
  have hshort : id.toList.length = 1 := by
    have hpos := List.length_pos_iff.mpr hid.some
    have hseveral : ¬1 < id.toList.length := fun hlong => hpadded ⟨hdigits, hlong, hzero⟩
    omega
  obtain ⟨d, hd⟩ := List.length_eq_one_iff.mp hshort
  rw [hd] at hzero ⊢
  cases hzero
  rfl

theorem eq_of_compareIdentifier (hid : Identifier id ∧ ¬Padded id)
    (hother : Identifier other ∧ ¬Padded other) (h : compareIdentifier id other = .eq) :
    id = other := by
  unfold compareIdentifier at h
  cases hnumeric : isNumeric id <;> cases hnumeric' : isNumeric other <;>
    simp only [hnumeric, hnumeric'] at h
  · exact LawfulEqOrd.eq_of_compare h
  · contradiction
  · contradiction
  · -- equal values, and neither numeral has a zero in front
    have hvalue : digitsValue id.toList = digitsValue other.toList := LawfulEqOrd.eq_of_compare h
    have hleft := numeral_of_isNumeric hid.1 hid.2 hnumeric
    have hright := numeral_of_isNumeric hother.1 hother.2 hnumeric'
    apply String.toList_injective
    rw [← hleft, ← hright, hvalue]

theorem eq_of_compareIdentifiers (hids : ∀ id ∈ ids, Identifier id ∧ ¬Padded id)
    (hothers : ∀ id ∈ others, Identifier id ∧ ¬Padded id)
    (h : compareIdentifiers ids others = .eq) : ids = others := by
  induction ids generalizing others with
  | nil =>
    cases others with
    | nil => rfl
    | cons => contradiction
  | cons id ids ih =>
    cases others with
    | nil => contradiction
    | cons other others =>
      rw [compareIdentifiers, Ordering.then_eq_eq] at h
      obtain ⟨hid, hids⟩ := List.forall_mem_cons.mp hids
      obtain ⟨hother, hothers⟩ := List.forall_mem_cons.mp hothers
      rw [eq_of_compareIdentifier hid hother h.1, ih hids hothers h.2]

theorem compareIdentifiers_of_comparePre (h : comparePre ids others = .eq) :
    compareIdentifiers ids others = .eq := by
  cases ids <;> cases others <;> simp_all [comparePre, compareIdentifiers]

/-! ### Versions of equal rank -/

theorem same_iff : v.same w = true ↔ v.key = w.key := by
  simp [same, key, and_assoc]

theorem same_refl (v : Version) : v.same v = true := same_iff.mpr rfl

theorem same_of_equal_rank (hv : v.WellFormed) (hw : w.WellFormed) (h : compare v w = .eq) :
    v.same w = true := by
  simp only [compare, Ordering.then_eq_eq] at h
  obtain ⟨hmajor, hminor, hpatch, hpre⟩ := h
  have hids := eq_of_compareIdentifiers hv.pre hw.pre (compareIdentifiers_of_comparePre hpre)
  have hmajor : v.major = w.major := LawfulEqOrd.eq_of_compare hmajor
  have hminor : v.minor = w.minor := LawfulEqOrd.eq_of_compare hminor
  have hpatch : v.patch = w.patch := LawfulEqOrd.eq_of_compare hpatch
  rw [same_iff, key, key, hmajor, hminor, hpatch, hids]

/-- Of two lawful versions one comes first, unless they are the same release. -/
theorem same_of_not_before (hv : v.WellFormed) (hw : w.WellFormed) (hvw : v.before w = false)
    (hwv : w.before v = false) : v.same w = true := by
  have hle := not_before_iff.mp hvw
  have hge := not_before_iff.mp hwv
  apply same_of_equal_rank hv hw
  exact OrientedCmp.isLE_antisymm hge hle

/-! ### The same release elsewhere in the order -/

theorem before_congr_left (h : a.same b = true) : a.before c = b.before c := by
  have hrank : compare a c = compare b c := TransCmp.congr_left (equal_rank_of_same h)
  rw [before, before, hrank]

end ClusterGate.Version
