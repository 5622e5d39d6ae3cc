import ClusterGate.Proofs.Json.Same
import ClusterGate.Proofs.Patch.Under

/-!
# The walk of a diff

`diff_induction` follows the walk over two documents. By it, a diff below a path is the diff of the
two parts alone, moved under the path, and every operation of a diff is an inner one.
-/

namespace ClusterGate.Patch

open Json (IsNest)

variable {path k : String} {b a : Json} {before after : List (String × Json)}

/-! ### Equations of the walk -/

theorem diffAt_of_not_nest (h : ¬IsNest b a) :
    diffAt path b a = if b.same a then [] else [.replace path a] := by
  rw [diffAt]
  · rintro bs as rfl rfl
    exact h trivial
  · rintro bs as rfl rfl
    exact h trivial

theorem diffMembers_removed (h : ∀ e ∈ after.head?, k < e.1) :
    diffMembers path ((k, b) :: before) after =
      .remove (Pointer.push path k) :: diffMembers path before after := by
  cases after with
  | nil => rw [diffMembers]
  | cons e after =>
    have hk : k < e.1 := h e rfl
    rw [diffMembers, if_pos hk]

theorem diffMembers_added (h : ∀ e ∈ before.head?, k < e.1) :
    diffMembers path before ((k, a) :: after) =
      .add (Pointer.push path k) a :: diffMembers path before after := by
  cases before with
  | nil => rw [diffMembers]
  | cons e before =>
    have hk : k < e.1 := h e rfl
    rw [diffMembers, if_neg (String.lt_asymm hk), if_neg (String.ne_of_lt hk).symm]

theorem diffMembers_kept :
    diffMembers path ((k, b) :: before) ((k, a) :: after) =
      diffAt (Pointer.push path k) b a ++ diffMembers path before after := by
  rw [diffMembers, if_neg (String.lt_irrefl k), if_pos rfl]

theorem diffElements_nil (index : Nat) (before : List Json) :
    diffElements path index before [] = removals path index before.length := by
  cases before with
  | nil => simp [diffElements, removals, additions]
  | cons b before => simp [diffElements]

/-! ### Induction along the walk -/

theorem members_induction {P : Json → Json → Prop}
    {M : List (String × Json) → List (String × Json) → Prop} (done : M [] [])
    (removed : ∀ k b before after, (∀ e ∈ after.head?, k < e.1) → M before after →
      M ((k, b) :: before) after)
    (added : ∀ k a before after, (∀ e ∈ before.head?, k < e.1) → M before after →
      M before ((k, a) :: after))
    (kept : ∀ k b a before after, P b a → M before after → M ((k, b) :: before) ((k, a) :: after))
    (before after : List (String × Json))
    (pairs : ∀ k b, (k, b) ∈ before → ∀ l a, (l, a) ∈ after → P b a) : M before after := by
  match before, after with
  | [], [] => exact done
  | (k, b) :: before, [] =>
    exact removed k b before [] (by simp)
      (members_induction done removed added kept before [] (by simp))
  | [], (k, a) :: after =>
    exact added k a [] after (by simp)
      (members_induction done removed added kept [] after (by simp))
  | (k, b) :: before, (l, a) :: after =>
    rcases Std.lt_trichotomy k l with hlt | heq | hgt
    · refine removed k b before _ (by simpa using hlt)
        (members_induction done removed added kept before _ ?_)
      exact fun k' b' hb => pairs k' b' (List.mem_cons_of_mem _ hb)
    · subst heq
      refine kept k b a before after (pairs k b List.mem_cons_self k a List.mem_cons_self)
        (members_induction done removed added kept before after ?_)
      exact fun k' b' hb l' a' ha =>
        pairs k' b' (List.mem_cons_of_mem _ hb) l' a' (List.mem_cons_of_mem _ ha)
    · refine added l a _ after (by simpa using hgt)
        (members_induction done removed added kept _ after ?_)
      exact fun k' b' hb l' a' ha => pairs k' b' hb l' a' (List.mem_cons_of_mem _ ha)
termination_by before.length + after.length

theorem elements_induction {P : Json → Json → Prop} {E : List Json → List Json → Prop}
    (grown : ∀ after, E [] after) (shrunk : ∀ before, E before [])
    (element : ∀ b a before after, P b a → E before after → E (b :: before) (a :: after))
    (before after : List Json) (pairs : ∀ b ∈ before, ∀ a ∈ after, P b a) : E before after := by
  induction before generalizing after with
  | nil => exact grown after
  | cons b before ih =>
    cases after with
    | nil => exact shrunk _
    | cons a after =>
      refine element b a before after (pairs b List.mem_cons_self a List.mem_cons_self)
        (ih after ?_)
      exact fun b' hb a' ha => pairs b' (List.mem_cons_of_mem _ hb) a' (List.mem_cons_of_mem _ ha)

/-- Induction along the walk over two documents: `P` speaks of values, `M` of the members and `E` of
the elements still ahead. -/
theorem diff_induction {P : Json → Json → Prop}
    {M : List (String × Json) → List (String × Json) → Prop} {E : List Json → List Json → Prop}
    (leaf : ∀ b a, ¬IsNest b a → P b a)
    (objects : ∀ before after, M before after → P (.obj before) (.obj after))
    (arrays : ∀ before after, E before after → P (.arr before) (.arr after))
    (done : M [] [])
    (removed : ∀ k b before after, (∀ e ∈ after.head?, k < e.1) → M before after →
      M ((k, b) :: before) after)
    (added : ∀ k a before after, (∀ e ∈ before.head?, k < e.1) → M before after →
      M before ((k, a) :: after))
    (kept : ∀ k b a before after, P b a → M before after → M ((k, b) :: before) ((k, a) :: after))
    (grown : ∀ after, E [] after) (shrunk : ∀ before, E before [])
    (element : ∀ b a before after, P b a → E before after → E (b :: before) (a :: after))
    (b a : Json) : P b a := by
  refine Json.pair_induction leaf ?_ ?_ b a
  · exact fun bs as pairs => arrays bs as (elements_induction grown shrunk element bs as pairs)
  · exact fun bs as pairs => objects bs as (members_induction done removed added kept bs as pairs)

/-! ### A diff below a path -/

theorem removals_append (above path : String) (first n : Nat) :
    removals (above ++ path) first n = (removals path first n).map (·.under above) := by
  induction n with
  | zero => rfl
  | succ n ih => simp [removals, ih, Operation.under, String.append_assoc]

theorem additions_append (above path : String) (index : Nat) (vs : List Json) :
    additions (above ++ path) index vs = (additions path index vs).map (·.under above) := by
  induction vs generalizing index with
  | nil => rfl
  | cons v vs ih => simp [additions, ih, Operation.under, String.append_assoc]

theorem diffAt_append (above path : String) (b a : Json) :
    diffAt (above ++ path) b a = (diffAt path b a).map (·.under above) := by
  refine diff_induction
    (P := fun b a => ∀ path, diffAt (above ++ path) b a = (diffAt path b a).map (·.under above))
    (M := fun before after => ∀ path, diffMembers (above ++ path) before after =
      (diffMembers path before after).map (·.under above))
    (E := fun before after => ∀ path index, diffElements (above ++ path) index before after =
      (diffElements path index before after).map (·.under above))
    ?leaf ?objects ?arrays ?done ?removed ?added ?kept ?grown ?shrunk ?element b a path
  case leaf =>
    intro b a h path
    rw [diffAt_of_not_nest h, diffAt_of_not_nest h]
    split <;> rfl
  case objects => intro before after h path; rw [diffAt, diffAt, h]
  case arrays => intro before after h path; rw [diffAt, diffAt, h]
  case done => intro path; simp [diffMembers]
  case removed =>
    intro k b before after hk h path
    rw [diffMembers_removed hk, diffMembers_removed hk, h, Pointer.push_append]
    rfl
  case added =>
    intro k a before after hk h path
    rw [diffMembers_added hk, diffMembers_added hk, h, Pointer.push_append]
    rfl
  case kept =>
    intro k b a before after hpair h path
    rw [diffMembers_kept, diffMembers_kept, Pointer.push_append, hpair, h, List.map_append]
  case grown => intro after path index; rw [diffElements, diffElements, additions_append]
  case shrunk =>
    intro before path index
    rw [diffElements_nil, diffElements_nil, removals_append]
  case element =>
    intro b a before after hpair h path index
    rw [diffElements, diffElements, List.map_append, ← hpair, ← h]
    simp [String.append_assoc]

/-- The diff of a member is the diff of its values, moved under its key. -/
theorem diffAt_push (token : String) (b a : Json) :
    diffAt (Pointer.push "" token) b a = (diff b a).map (·.under (Pointer.push "" token)) := by
  have h := diffAt_append (Pointer.push "" token) "" b a
  rwa [String.append_empty] at h

theorem escapeChars_of_digits {cs : List Char} (h : cs.all Text.isDigit = true) :
    Pointer.escapeChars cs = cs := by
  induction cs with
  | nil => rfl
  | cons c cs ih =>
    simp only [List.all_cons, Bool.and_eq_true] at h
    have htilde : c ≠ '~' := fun e => by simp [e, Text.isDigit] at h
    have hslash : c ≠ '/' := fun e => by simp [e, Text.isDigit] at h
    rw [Pointer.escapeChars.eq_4 c cs htilde hslash, ih h.2]

theorem push_index (index : Nat) :
    "" ++ "/" ++ toString index = Pointer.push "" (toString index) := by
  have hescape : Pointer.escape (toString index) = toString index := by
    rw [Pointer.escape, Text.toList_toString,
      escapeChars_of_digits (Text.toDigits_all_isDigit index), ← Text.toList_toString,
      String.ofList_toList]
  rw [Pointer.push, hescape]

/-! ### Inner operations -/

theorem inner_remove (token : String) : (Operation.remove (Pointer.push "" token)).IsInner :=
  ⟨token, [], Pointer.tokens?_push_root token⟩

theorem inner_add (token : String) (v : Json) :
    (Operation.add (Pointer.push "" token) v).IsInner :=
  ⟨token, [], Pointer.tokens?_push_root token⟩

theorem inner_of_mem_removals {first n : Nat} {op : Operation}
    (h : op ∈ removals "" first n) : op.IsInner := by
  induction n with
  | zero => simp [removals] at h
  | succ n ih =>
    rcases List.mem_cons.mp h with rfl | h
    · rw [push_index]
      exact inner_remove _
    · exact ih h

theorem inner_of_mem_additions {index : Nat} {vs : List Json} {op : Operation}
    (h : op ∈ additions "" index vs) : op.IsInner := by
  induction vs generalizing index with
  | nil => simp [additions] at h
  | cons v vs ih =>
    rcases List.mem_cons.mp h with rfl | h
    · rw [push_index]
      exact inner_add _ v
    · exact ih h

theorem inner_of_mem_diffAt_push {token : String} {b a : Json}
    (hpair : ∀ op ∈ diff b a, op.IsInner) {op : Operation}
    (h : op ∈ diffAt (Pointer.push "" token) b a) : op.IsInner := by
  rw [diffAt_push] at h
  obtain ⟨inner, hm, rfl⟩ := List.mem_map.mp h
  exact (hpair inner hm).under token

theorem inner_of_mem_diff (b a : Json) : ∀ op ∈ diff b a, op.IsInner := by
  refine diff_induction
    (P := fun b a => ∀ op ∈ diff b a, op.IsInner)
    (M := fun before after => ∀ op ∈ diffMembers "" before after, op.IsInner)
    (E := fun before after => ∀ index, ∀ op ∈ diffElements "" index before after, op.IsInner)
    ?leaf ?objects ?arrays ?done ?removed ?added ?kept ?grown ?shrunk ?element b a
  case leaf =>
    intro b a hleaf op h
    rw [diff, diffAt_of_not_nest hleaf] at h
    split at h
    · simp at h
    · obtain rfl := List.mem_singleton.mp h
      exact ⟨[], Pointer.tokens?_empty⟩
  case objects => intro before after hm op h; exact hm op (by rwa [diff, diffAt] at h)
  case arrays => intro before after he op h; exact he 0 op (by rwa [diff, diffAt] at h)
  case done => intro op h; simp [diffMembers] at h
  case removed =>
    intro k b before after hk hm op h
    rw [diffMembers_removed hk] at h
    rcases List.mem_cons.mp h with rfl | h
    · exact inner_remove k
    · exact hm op h
  case added =>
    intro k a before after hk hm op h
    rw [diffMembers_added hk] at h
    rcases List.mem_cons.mp h with rfl | h
    · exact inner_add k a
    · exact hm op h
  case kept =>
    intro k b a before after hpair hm op h
    rw [diffMembers_kept] at h
    rcases List.mem_append.mp h with h | h
    · exact inner_of_mem_diffAt_push hpair h
    · exact hm op h
  case grown => intro after index op h; rw [diffElements] at h; exact inner_of_mem_additions h
  case shrunk => intro before index op h; rw [diffElements_nil] at h; exact inner_of_mem_removals h
  case element =>
    intro b a before after hpair he index op h
    rw [diffElements, push_index] at h
    rcases List.mem_append.mp h with h | h
    · exact inner_of_mem_diffAt_push hpair h
    · exact he _ op h

end ClusterGate.Patch
