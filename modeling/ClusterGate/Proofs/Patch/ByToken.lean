import ClusterGate.Proofs.Patch.ByKey

/-!
# A diff, token by token

The diff of two objects or of two arrays is the list of what the two values under each token ask for,
in the order in which the walk comes to the tokens: keys ascend, so do the indices that both arrays
have and those that are added, and those that are removed descend. Main statement: `diff_eq_flatMap`.
-/

namespace ClusterGate

/-! ### Where tokens lead -/

namespace Json

/-- The value one step down. -/
def step? (token : String) : Json → Option Json
  | .obj members => Dict.get? token members
  | .arr elements => (index? token).bind fun i => elements[i]?
  | _ => none

/-- The value that a sequence of tokens leads to. -/
def at? : List String → Json → Option Json
  | [], v => some v
  | token :: rest, v => (v.step? token).bind (at? rest)

theorem step?_index (elements : List Json) (i : Nat) :
    step? (toString i) (.arr elements) = elements[i]? := by
  rw [step?, index?_toString, Option.bind_some]

theorem mem_of_step?_arr {elements : List Json} {token : String} {v : Json}
    (h : step? token (.arr elements) = some v) : v ∈ elements := by
  obtain ⟨i, -, hi⟩ := Option.bind_eq_some_iff.mp h
  exact List.mem_of_getElem? hi

theorem mem_of_step?_obj {members : List (String × Json)} {token : String} {v : Json}
    (hordered : (Json.obj members).Ordered) (h : step? token (.obj members) = some v) :
    (token, v) ∈ members :=
  (Dict.get?_eq_some_iff hordered.1).mp h

theorem ordered_of_mem_elements {elements : List Json} {v : Json} (h : OrderedElements elements)
    (hv : v ∈ elements) : v.Ordered := by
  induction elements with
  | nil => cases hv
  | cons first elements ih =>
    rcases List.mem_cons.mp hv with rfl | hv
    · exact h.1
    · exact ih h.2 hv

theorem ordered_of_step? {token : String} {w v : Json} (hw : w.Ordered)
    (h : w.step? token = some v) : v.Ordered := by
  cases w with
  | obj members => exact orderedMembers_iff.mp hw.2 token v (mem_of_step?_obj hw h)
  | arr elements => exact ordered_of_mem_elements hw (mem_of_step?_arr h)
  | _ => cases h

/-- Induction over two documents in order: what holds of the values under every common token holds of
the documents. -/
theorem ordered_pair_induction {P : Json → Json → Prop} (leaf : ∀ b a, ¬IsNest b a → P b a)
    (nest : ∀ b a, IsNest b a → b.Ordered → a.Ordered →
      (∀ token v w, b.step? token = some v → a.step? token = some w → P v w) → P b a)
    (b a : Json) : b.Ordered → a.Ordered → P b a := by
  refine pair_induction (P := fun b a => b.Ordered → a.Ordered → P b a)
    ?leaf ?arrays ?objects b a
  case leaf => exact fun b a h _ _ => leaf b a h
  case arrays =>
    intro before after ih hb ha
    refine nest _ _ trivial hb ha fun token v w hv hw => ?_
    have hparts := ih v (mem_of_step?_arr hv) w (mem_of_step?_arr hw)
    exact hparts (ordered_of_step? hb hv) (ordered_of_step? ha hw)
  case objects =>
    intro before after ih hb ha
    refine nest _ _ trivial hb ha fun token v w hv hw => ?_
    have hparts := ih token v (mem_of_step?_obj hb hv) token w (mem_of_step?_obj ha hw)
    exact hparts (ordered_of_step? hb hv) (ordered_of_step? ha hw)

end Json

namespace Patch

open Json (IsNest)

variable {b a : Json}

/-! ### The order of the tokens -/

/-- The indices of two arrays in the order of the walk: common ones, added ones, and from the end the
removed ones. -/
def indices (m n : Nat) : List Nat :=
  List.range (min m n) ++ (List.range' m (n - m) ++ (List.range' n (m - n)).reverse)

/-- The tokens that the walk over two documents comes to, in their order. -/
def visited : Json → Json → List String
  | .obj before, .obj after => sortedSet (Dict.keys before ++ Dict.keys after)
  | .arr before, .arr after => (indices before.length after.length).map toString
  | _, _ => []

theorem indices_zero_left (n : Nat) : indices 0 n = List.range' 0 n := by
  simp [indices]

theorem indices_zero_right (m : Nat) : indices m 0 = (List.range' 0 m).reverse := by
  simp [indices]

theorem map_succ_range' (start len : Nat) :
    (List.range' start len).map (· + 1) = List.range' (start + 1) len := by
  rw [Nat.add_comm start 1, ← List.map_add_range' start len 1]
  exact List.map_congr_left fun i _ => Nat.add_comm i 1

theorem indices_succ (m n : Nat) : indices (m + 1) (n + 1) = 0 :: (indices m n).map (· + 1) := by
  rw [indices, indices, Nat.succ_min_succ, List.range_succ_eq_map, List.cons_append, List.map_append,
    List.map_append, List.map_reverse, map_succ_range', map_succ_range', Nat.add_sub_add_right,
    Nat.add_sub_add_right]

/-- An index comes before a larger one, unless both are removed. -/
theorem indices_ordered (m n : Nat) :
    (indices m n).Pairwise fun i j => i < j ∧ i < n ∨ n ≤ j ∧ j < i ∧ i < m := by
  rw [indices, List.pairwise_append, List.pairwise_append]
  have hascend : ∀ start len, (List.range' start len).Pairwise (· < ·) :=
    fun start len => List.pairwise_lt_range' 1
  refine ⟨?_, ⟨?_, ?_, ?_⟩, ?_⟩
  · apply List.pairwise_lt_range.imp_of_mem
    intro i j hi _ hij
    rw [List.mem_range] at hi
    omega
  · apply (hascend m (n - m)).imp_of_mem
    intro i j hi _ hij
    rw [List.mem_range'_1] at hi
    omega
  · rw [List.pairwise_reverse]
    apply (hascend n (m - n)).imp_of_mem
    intro i j hi hj hij
    rw [List.mem_range'_1] at hi hj
    omega
  · intro i hi j hj
    rw [List.mem_range'_1] at hi
    rw [List.mem_reverse, List.mem_range'_1] at hj
    omega
  · intro i hi j hj
    rw [List.mem_range] at hi
    rw [List.mem_append, List.mem_range'_1, List.mem_reverse, List.mem_range'_1] at hj
    omega

/-! ### The operations of a token -/

/-- What the walk emits for a token: the operations of its place, moved under the token. -/
def tokenDiff (b a : Json) (token : String) : List Operation :=
  (slotDiff (b.step? token) (a.step? token)).map (·.under (Pointer.push "" token))

/-- What the walk over the ends of two arrays emits for an index, with `k` elements before them. -/
def indexDiff (k : Nat) (before after : List Json) (i : Nat) : List Operation :=
  (slotDiff before[i]? after[i]?).map (·.under (Pointer.push "" (toString (k + i))))

theorem additions_eq_flatMap (k : Nat) (after : List Json) :
    additions "" k after = (List.range' 0 after.length).flatMap (indexDiff k [] after) := by
  induction after generalizing k with
  | nil => rfl
  | cons a after ih =>
    have hfirst : indexDiff k [] (a :: after) 0 = [.add ("" ++ "/" ++ toString k) a] := by
      rw [push_index]
      simp [indexDiff, slotDiff, Operation.under]
    have hrest : ∀ i, indexDiff k [] (a :: after) (i + 1) = indexDiff (k + 1) [] after i := by
      intro i
      have hindex : k + (i + 1) = k + 1 + i := by omega
      simp only [indexDiff, List.getElem?_cons_succ, List.getElem?_nil, hindex]
    rw [additions, ih, List.length_cons, List.range'_succ, List.flatMap_cons, hfirst,
      ← map_succ_range', List.flatMap_map, List.singleton_append]
    simp only [hrest]

theorem removals_eq_flatMap (k : Nat) (before : List Json) :
    removals "" k before.length =
      (List.range' 0 before.length).reverse.flatMap (indexDiff k before []) := by
  have h : ∀ n, n ≤ before.length →
      removals "" k n = (List.range' 0 n).reverse.flatMap (indexDiff k before []) := by
    intro n hn
    induction n with
    | zero => rfl
    | succ n ih =>
      have hlast : indexDiff k before [] n = [.remove ("" ++ "/" ++ toString (k + n))] := by
        have hslot : before[n]? = some before[n] := List.getElem?_eq_getElem hn
        rw [push_index]
        simp [indexDiff, hslot, slotDiff, Operation.under]
      rw [removals, ih (Nat.le_of_succ_le hn), List.range'_1_concat, List.reverse_append, Nat.zero_add,
        List.reverse_singleton, List.singleton_append, List.flatMap_cons, hlast, List.singleton_append]
  exact h before.length (Nat.le_refl _)

theorem diffElements_eq_flatMap (k : Nat) (before after : List Json) :
    diffElements "" k before after =
      (indices before.length after.length).flatMap (indexDiff k before after) := by
  induction before generalizing k after with
  | nil => rw [diffElements, additions_eq_flatMap, List.length_nil, indices_zero_left]
  | cons b before ih =>
    cases after with
    | nil => rw [diffElements_nil, removals_eq_flatMap, List.length_nil, indices_zero_right]
    | cons a after =>
      have hfirst : indexDiff k (b :: before) (a :: after) 0 =
          diffAt ("" ++ "/" ++ toString k) b a := by
        rw [push_index, diffAt_push]
        rfl
      have hrest : ∀ i, indexDiff k (b :: before) (a :: after) (i + 1) =
          indexDiff (k + 1) before after i := by
        intro i
        have hindex : k + (i + 1) = k + 1 + i := by omega
        simp only [indexDiff, List.getElem?_cons_succ, hindex]
      rw [diffElements, ih, List.length_cons, List.length_cons, indices_succ, List.flatMap_cons, hfirst,
        List.flatMap_map]
      simp only [hrest]

/-- The diff of two objects or of two arrays, token by token. -/
theorem diff_eq_flatMap (hnest : IsNest b a) (hb : b.Ordered) (ha : a.Ordered) :
    diff b a = (visited b a).flatMap (tokenDiff b a) := by
  match b, a, hnest with
  | .obj before, .obj after, _ =>
    have hkeys : ∀ key, key ∈ Dict.keys before ∨ key ∈ Dict.keys after →
        key ∈ sortedSet (Dict.keys before ++ Dict.keys after) := by
      intro key hkey
      rw [mem_sortedSet, List.mem_append]
      exact hkey
    rw [diff, diffAt]
    exact diffMembers_eq_flatMap (sortedSet_sorted _) hb.1 ha.1 (fun key hkey => hkeys key (Or.inl hkey))
      fun key hkey => hkeys key (Or.inr hkey)
  | .arr before, .arr after, _ =>
    rw [diff, diffAt, diffElements_eq_flatMap, visited, List.flatMap_map]
    apply List.flatMap_congr
    intro i _
    rw [indexDiff, tokenDiff, Json.step?_index, Json.step?_index, Nat.zero_add]

end Patch

end ClusterGate
