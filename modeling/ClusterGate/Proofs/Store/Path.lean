import ClusterGate.Proofs.Json.Pointer
import ClusterGate.Store.FileTree
import Mathlib.Data.List.Basic

/-!
# Joined paths

A path joined with a name has the steps of the path, and the name as one more. Main statement:
`steps_join`.
-/

namespace ClusterGate

namespace Text

variable {mark : Char}

theorem pieces_append_mark (cs ds : List Char) :
    pieces mark (cs ++ mark :: ds) = pieces mark cs ++ pieces mark ds := by
  induction cs with
  | nil => simp [pieces]
  | cons c cs ih =>
    rw [List.cons_append, pieces, pieces, ih]
    split
    · rfl
    · obtain ⟨piece, others, hpieces⟩ := List.exists_cons_of_ne_nil (pieces_ne_nil mark cs)
      rw [hpieces]
      rfl

end Text

namespace Path

/-- The text is a single name: it has no slash, no zero, and stands for no other step. -/
structure IsName (name : String) : Prop where
  nonempty : name ≠ ""
  noSlash : '/' ∉ name.toList
  noZero : '\x00' ∉ name.toList
  notHere : name ≠ "."
  notUp : name ≠ ".."

variable {base name : String}

theorem IsName.toList_ne_nil (h : IsName name) : name.toList ≠ [] :=
  fun hnil => h.nonempty (String.toList_eq_nil_iff.mp hnil)

theorem IsName.isAbsolute (h : IsName name) : isAbsolute name = false := by
  cases hlist : name.toList with
  | nil => rw [Path.isAbsolute, hlist]; rfl
  | cons c cs =>
    have hc : c ≠ '/' := by
      rintro rfl
      exact h.noSlash (hlist ▸ List.mem_cons_self)
    simp [Path.isAbsolute, hlist, hc]

/-- The text of a joined path: the slash between is there once. -/
theorem toList_join (base : String) (h : IsName name) :
    (base.toList = [] ∧ (join base name).toList = name.toList) ∨
      (∃ cs, base.toList = cs ++ ['/'] ∧ (join base name).toList = cs ++ '/' :: name.toList) ∨
      (base.toList ≠ [] ∧ (join base name).toList = base.toList ++ '/' :: name.toList) := by
  unfold join
  rw [if_neg (by rw [h.isAbsolute]; exact Bool.false_ne_true)]
  split
  next hend =>
    rcases hend with rfl | hend
    · exact Or.inl ⟨rfl, by simp⟩
    · obtain ⟨cs, hcs⟩ := List.getLast?_eq_some_iff.mp hend
      exact Or.inr (Or.inl ⟨cs, hcs, by simp [hcs]⟩)
  next hend =>
    refine Or.inr (Or.inr ⟨?_, by simp⟩)
    intro hnil
    exact hend (Or.inl (String.toList_eq_nil_iff.mp hnil))

theorem join_ne_empty (base : String) (h : IsName name) : join base name ≠ "" := by
  intro hempty
  have hnil : (join base name).toList = [] := by
    rw [hempty]
    rfl
  rcases toList_join base h with ⟨_, hjoin⟩ | ⟨cs, _, hjoin⟩ | ⟨_, hjoin⟩
  · exact h.toList_ne_nil (hjoin.symm.trans hnil)
  · simp [hjoin] at hnil
  · simp [hjoin] at hnil

theorem size_le_join (base : String) (h : IsName name) :
    base.utf8ByteSize ≤ (join base name).utf8ByteSize := by
  unfold join
  rw [if_neg (by rw [h.isAbsolute]; exact Bool.false_ne_true)]
  split
  · rw [String.utf8ByteSize_append]
    omega
  · rw [String.utf8ByteSize_append, String.utf8ByteSize_append]
    omega

theorem isAbsolute_join (base : String) (h : IsName name) :
    isAbsolute (join base name) = isAbsolute base := by
  have hname := h.isAbsolute
  unfold isAbsolute at hname ⊢
  rcases toList_join base h with ⟨hbase, hjoin⟩ | ⟨cs, hbase, hjoin⟩ | ⟨hbase, hjoin⟩
  · rw [hjoin, hbase, hname]
    rfl
  · rw [hjoin, hbase]
    cases cs <;> rfl
  · rw [hjoin]
    obtain ⟨c, cs, hcs⟩ := List.exists_cons_of_ne_nil hbase
    rw [hcs]
    rfl

theorem namesDirectory_join (base : String) (h : IsName name) :
    namesDirectory (join base name) = false := by
  have hlast : ∀ front, (front ++ name.toList).getLast? ≠ some '/' := by
    intro front hslash
    rw [List.getLast?_append_of_ne_nil _ h.toList_ne_nil] at hslash
    exact h.noSlash (List.mem_of_getLast? hslash)
  unfold namesDirectory
  rcases toList_join base h with ⟨_, hjoin⟩ | ⟨cs, _, hjoin⟩ | ⟨_, hjoin⟩
  · simpa [hjoin] using hlast []
  · simpa [hjoin] using hlast (cs ++ ['/'])
  · simpa [hjoin] using hlast (base.toList ++ ['/'])

theorem steps_join (base : String) (h : IsName name) :
    steps (join base name) = steps base ++ [name] := by
  have hname : (Text.pieces '/' name.toList).filter (· ≠ []) = [name.toList] := by
    rw [Text.pieces_of_not_mem h.noSlash]
    simp [h.nonempty]
  rcases toList_join base h with ⟨hbase, hjoin⟩ | ⟨cs, hbase, hjoin⟩ | ⟨_, hjoin⟩
  · rw [steps, steps, hjoin, hname, hbase]
    simp [Text.pieces]
  · rw [steps, steps, hjoin, hbase, Text.pieces_append_mark, Text.pieces_append_mark,
      List.filter_append, List.filter_append, hname]
    simp [Text.pieces]
  · rw [steps, steps, hjoin, Text.pieces_append_mark, List.filter_append, hname]
    simp

theorem zero_not_mem_join (h : IsName name) (hbase : '\x00' ∉ base.toList) :
    '\x00' ∉ (join base name).toList := by
  have hname := h.noZero
  rcases toList_join base h with ⟨_, hjoin⟩ | ⟨cs, hcs, hjoin⟩ | ⟨_, hjoin⟩
  · rwa [hjoin]
  · rw [hcs] at hbase
    simp_all
  · simp [hjoin, hbase, hname]

end Path

end ClusterGate
