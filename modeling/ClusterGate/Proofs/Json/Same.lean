import ClusterGate.Json.Basic

/-!
# Equality of JSON values

Induction over two documents at once, and the laws of `Json.same`.
-/

namespace ClusterGate.Json

theorem sizeOf_lt_of_mem_members {key : String} {v : Json} {members : List (String × Json)}
    (h : (key, v) ∈ members) : sizeOf v < sizeOf (Json.obj members) := by
  have hm := List.sizeOf_lt_of_mem h
  simp only [Prod.mk.sizeOf_spec, obj.sizeOf_spec] at hm ⊢
  omega

theorem sizeOf_lt_of_mem_elements {v : Json} {elements : List Json} (h : v ∈ elements) :
    sizeOf v < sizeOf (Json.arr elements) := by
  have hm := List.sizeOf_lt_of_mem h
  simp only [arr.sizeOf_spec]
  omega

/-- Two objects or two arrays: the pairs that a comparison goes into. -/
def IsNest : Json → Json → Prop
  | .obj _, .obj _ | .arr _, .arr _ => True
  | _, _ => False

/-- Induction over two documents: what holds of all pairs of parts holds of the whole. -/
theorem pair_induction {P : Json → Json → Prop}
    (leaf : ∀ b a, ¬IsNest b a → P b a)
    (arr : ∀ bs as, (∀ b ∈ bs, ∀ a ∈ as, P b a) → P (.arr bs) (.arr as))
    (obj : ∀ bs as, (∀ k b, (k, b) ∈ bs → ∀ l a, (l, a) ∈ as → P b a) → P (.obj bs) (.obj as))
    (b a : Json) : P b a := by
  cases b with
  | arr bs =>
    cases a with
    | arr as =>
      refine arr bs as fun b hb a _ => ?_
      have hlt := sizeOf_lt_of_mem_elements hb
      exact pair_induction leaf arr obj b a
    | _ => exact leaf _ _ id
  | obj bs =>
    cases a with
    | obj as =>
      refine obj bs as fun k b hb l a _ => ?_
      have hlt := sizeOf_lt_of_mem_members hb
      exact pair_induction leaf arr obj b a
    | _ => exact leaf _ _ id
  | _ => exact leaf _ _ id
termination_by sizeOf b
decreasing_by all_goals exact hlt

mutual

theorem same_refl : ∀ v : Json, v.same v = true
  | .null => by simp [same]
  | .bool _ | .int _ | .str _ => by simp [same]
  | .double d => by simp [same, Double.same]
  | .arr elements => by rw [same]; exact sameElements_refl elements
  | .obj members => by rw [same]; exact sameMembers_refl members

theorem sameElements_refl : ∀ elements : List Json, sameElements elements elements = true
  | [] => by simp [sameElements]
  | v :: rest => by simp [sameElements, same_refl v, sameElements_refl rest]

theorem sameMembers_refl : ∀ members : List (String × Json), sameMembers members members = true
  | [] => by simp [sameMembers]
  | (k, v) :: rest => by simp [sameMembers, same_refl v, sameMembers_refl rest]

end

theorem sameElements_cons {a b : Json} {as bs : List Json} :
    sameElements (a :: as) (b :: bs) = true ↔ a.same b = true ∧ sameElements as bs = true := by
  rw [sameElements, Bool.and_eq_true]

theorem sameMembers_cons {k : String} {a b : Json} {as bs : List (String × Json)} :
    sameMembers ((k, a) :: as) ((k, b) :: bs) = true ↔
      a.same b = true ∧ sameMembers as bs = true := by
  simp [sameMembers]

/-! ### Order at every depth -/

theorem orderedMembers_iff {members : List (String × Json)} :
    OrderedMembers members ↔ ∀ k v, (k, v) ∈ members → v.Ordered := by
  induction members with
  | nil => simp [OrderedMembers]
  | cons entry rest ih =>
    obtain ⟨k, v⟩ := entry
    simp only [OrderedMembers, ih, List.mem_cons, Prod.mk.injEq]
    constructor
    · rintro ⟨hv, hrest⟩ l w (⟨rfl, rfl⟩ | hw)
      · exact hv
      · exact hrest l w hw
    · intro h
      exact ⟨h k v (Or.inl ⟨rfl, rfl⟩), fun l w hw => h l w (Or.inr hw)⟩

end ClusterGate.Json
