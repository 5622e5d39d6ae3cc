import ClusterGate.Proofs.Json.Ordered
import ClusterGate.Proofs.Patch.Walk

/-!
# Applying a diff

`performOn?_diff`: the operations of a diff, applied one after another, never fail and lead from the
first document to the second. The walk has changed what lies behind it and not yet what lies ahead,
so each operation finds its place in a document that is half old and half new.
-/

namespace ClusterGate.Patch

variable {front rest : List (String × Json)} {k : String} {v : Json}

/-! ### Single operations at their place -/

theorem performOn?_remove_member (h : Dict.Sorted (front ++ (k, v) :: rest)) :
    (Operation.remove (Pointer.push "" k)).performOn? (.obj (front ++ (k, v) :: rest)) =
      some (.obj (front ++ rest)) := by
  simp [Operation.performOn?, Pointer.tokens?_push_root, Json.descend?, Json.removeAt?,
    Dict.get?_append_cons h, Dict.erase_append_cons h]

theorem performOn?_add_member (h : Dict.Sorted (front ++ (k, v) :: rest)) :
    (Operation.add (Pointer.push "" k) v).performOn? (.obj (front ++ rest)) =
      some (.obj (front ++ (k, v) :: rest)) := by
  simp [Operation.performOn?, Pointer.tokens?_push_root, Json.descend?, Json.addAt?,
    Dict.insert_append h]

theorem performOn?_remove_last {vs : List Json} {n : Nat} (h : vs.length = n + 1) :
    (Operation.remove ("" ++ "/" ++ toString n)).performOn? (.arr vs) =
      some (.arr (vs.take n)) := by
  have hn : n < vs.length := by omega
  have herase : vs.eraseIdx n = vs.take n := by
    rw [List.eraseIdx_eq_take_drop_succ, ← h, List.drop_length, List.append_nil]
  rw [push_index]
  simp only [Operation.performOn?, Pointer.tokens?_push_root, Json.descend?, Json.removeAt?,
    Json.index?_toString, Option.bind_eq_bind, Option.bind_some, if_pos hn, herase]

theorem performOn?_add_last (vs : List Json) (v : Json) :
    (Operation.add ("" ++ "/" ++ toString vs.length) v).performOn? (.arr vs) =
      some (.arr (vs ++ [v])) := by
  have hdash : toString vs.length ≠ "-" := by
    intro h
    have hindex := Json.index?_toString vs.length
    rw [h] at hindex
    simp [Json.index?, Text.isDigit] at hindex
  rw [push_index]
  simp only [Operation.performOn?, Pointer.tokens?_push_root, Json.descend?, Json.addAt?,
    if_neg hdash, Json.index?_toString, Option.bind_eq_bind, Option.bind_some, Nat.le_refl,
    if_true, List.insertIdx_length_self]

/-! ### The ends of arrays -/

theorem performOn?_removals {vs : List Json} {first n : Nat} (h : vs.length = first + n) :
    performOn? (removals "" first n) (.arr vs) = some (.arr (vs.take first)) := by
  induction n generalizing vs with
  | zero => rw [removals, performOn?_nil, List.take_of_length_le (by omega)]
  | succ n ih =>
    rw [removals, performOn?_cons, performOn?_remove_last (by omega), Option.bind_some,
      ih (by simp; omega), List.take_take, Nat.min_eq_left (by omega)]

theorem performOn?_additions (front vs : List Json) :
    performOn? (additions "" front.length vs) (.arr front) = some (.arr (front ++ vs)) := by
  induction vs generalizing front with
  | nil => simp [additions, performOn?_nil]
  | cons v vs ih =>
    have hlength : front.length + 1 = (front ++ [v]).length := by simp
    rw [additions, performOn?_cons, performOn?_add_last, Option.bind_some, hlength, ih,
      List.append_assoc, List.singleton_append]

/-! ### The walk -/

/-- The diff of two values runs on the first and ends in a value equal to the second. -/
def Leads (b a : Json) : Prop :=
  ∃ result, performOn? (diff b a) b = some result ∧ result.same a = true

/-- With the members in `front` settled, the rest of the walk settles the others. -/
def LeadsMembers (before after : List (String × Json)) : Prop :=
  ∀ front, Dict.Sorted (front ++ before) → Dict.Sorted (front ++ after) →
    ∃ result, performOn? (diffMembers "" before after) (.obj (front ++ before)) =
      some (.obj (front ++ result)) ∧ Json.sameMembers result after = true

/-- With the elements in `front` settled, the rest of the walk settles the others. -/
def LeadsElements (before after : List Json) : Prop :=
  ∀ front, ∃ result, performOn? (diffElements "" front.length before after) (.arr (front ++ before)) =
    some (.arr (front ++ result)) ∧ Json.sameElements result after = true

/-- The diff of the values under a token, run inside the document. -/
theorem performOn?_diffAt_push {token : String} {around : Json → Json}
    (haround : Json.IsAround token around) {b a result : Json}
    (h : performOn? (diff b a) b = some result) :
    performOn? (diffAt (Pointer.push "" token) b a) (around b) = some (around result) := by
  rw [diffAt_push, performOn?_map_under haround (inner_of_mem_diff b a), h]
  rfl

theorem leadsMembers_removed {before after : List (String × Json)} {b : Json}
    (hk : ∀ e ∈ after.head?, k < e.1) (ih : LeadsMembers before after) :
    LeadsMembers ((k, b) :: before) after := by
  intro front hbefore hafter
  obtain ⟨result, hrun, hsame⟩ := ih front hbefore.drop hafter
  refine ⟨result, ?_, hsame⟩
  rw [diffMembers_removed hk, performOn?_cons, performOn?_remove_member hbefore]
  exact hrun

theorem leadsMembers_added {before after : List (String × Json)} {a : Json}
    (hk : ∀ e ∈ before.head?, k < e.1) (ih : LeadsMembers before after) :
    LeadsMembers before ((k, a) :: after) := by
  intro front hbefore hafter
  have hahead : ∀ e ∈ before, k < e.1 := by
    intro e he
    cases before with
    | nil => cases he
    | cons first before =>
      have hfirst : k < first.1 := hk first rfl
      rcases List.mem_cons.mp he with rfl | he
      · exact hfirst
      · have hsorted := (List.pairwise_append.mp hbefore).2.1
        exact String.lt_trans hfirst ((List.pairwise_cons.mp hsorted).1 e he)
  have hmiddle : Dict.Sorted (front ++ (k, a) :: before) :=
    hbefore.insert_between hafter.front_lt hahead
  rw [List.append_cons] at hafter
  obtain ⟨result, hrun, hsame⟩ := ih (front ++ [(k, a)]) (by rwa [← List.append_cons]) hafter
  refine ⟨(k, a) :: result, ?_, ?_⟩
  · rw [← List.append_cons, ← List.append_cons] at hrun
    rw [diffMembers_added hk, performOn?_cons, performOn?_add_member hmiddle]
    exact hrun
  · exact Json.sameMembers_cons.mpr ⟨Json.same_refl a, hsame⟩

theorem leadsMembers_kept {before after : List (String × Json)} {b a : Json} (hpair : Leads b a)
    (ih : LeadsMembers before after) : LeadsMembers ((k, b) :: before) ((k, a) :: after) := by
  intro front hbefore hafter
  obtain ⟨settled, hvalue, hvaluesame⟩ := hpair
  have hmiddle : Dict.Sorted ((front ++ [(k, settled)]) ++ before) := by
    rw [← List.append_cons]
    exact hbefore.replace
  have hahead : Dict.Sorted ((front ++ [(k, settled)]) ++ after) := by
    rw [← List.append_cons]
    exact hafter.replace
  obtain ⟨result, hrun, hsame⟩ := ih (front ++ [(k, settled)]) hmiddle hahead
  rw [← List.append_cons, ← List.append_cons] at hrun
  refine ⟨(k, settled) :: result, ?_, Json.sameMembers_cons.mpr ⟨hvaluesame, hsame⟩⟩
  have hinside := performOn?_diffAt_push (Json.isAround_member hbefore) hvalue
  rw [diffMembers_kept, performOn?_append, hinside]
  exact hrun

theorem leadsElements_element {before after : List Json} {b a : Json} (hpair : Leads b a)
    (ih : LeadsElements before after) : LeadsElements (b :: before) (a :: after) := by
  intro front
  obtain ⟨settled, hvalue, hvaluesame⟩ := hpair
  obtain ⟨result, hrun, hsame⟩ := ih (front ++ [settled])
  have hlength : (front ++ [settled]).length = front.length + 1 := by simp
  rw [hlength, ← List.append_cons, ← List.append_cons] at hrun
  refine ⟨settled :: result, ?_, Json.sameElements_cons.mpr ⟨hvaluesame, hsame⟩⟩
  have hinside := performOn?_diffAt_push (Json.isAround_element front before) hvalue
  rw [diffElements, push_index, performOn?_append, hinside]
  exact hrun

theorem leads_leaf {b a : Json} (h : ¬Json.IsNest b a) : Leads b a := by
  unfold Leads diff
  rw [diffAt_of_not_nest h]
  by_cases hsame : b.same a = true
  · rw [if_pos hsame]
    exact ⟨b, rfl, hsame⟩
  · rw [if_neg hsame]
    exact ⟨a, rfl, Json.same_refl a⟩

theorem leads_of_ordered (b a : Json) : b.Ordered → a.Ordered → Leads b a := by
  refine diff_induction
    (P := fun b a => b.Ordered → a.Ordered → Leads b a)
    (M := fun before after => Json.OrderedMembers before → Json.OrderedMembers after →
      LeadsMembers before after)
    (E := fun before after => Json.OrderedElements before → Json.OrderedElements after →
      LeadsElements before after)
    ?leaf ?objects ?arrays ?done ?removed ?added ?kept ?grown ?shrunk ?element b a
  case leaf => exact fun b a h _ _ => leads_leaf h
  case objects =>
    intro before after h hb ha
    obtain ⟨hbefore, hbvalues⟩ := hb
    obtain ⟨hafter, havalues⟩ := ha
    obtain ⟨result, hrun, hsame⟩ := h hbvalues havalues [] hbefore hafter
    exact ⟨.obj result, by rw [diff, diffAt]; exact hrun, by rw [Json.same]; exact hsame⟩
  case arrays =>
    intro before after h hb ha
    obtain ⟨result, hrun, hsame⟩ := h hb ha []
    exact ⟨.arr result, by rw [diff, diffAt]; exact hrun, by rw [Json.same]; exact hsame⟩
  case done =>
    intro _ _ front _ _
    exact ⟨[], by rw [diffMembers, performOn?_nil], by rw [Json.sameMembers]⟩
  case removed =>
    intro k b before after hk ih hb ha
    exact leadsMembers_removed hk (ih hb.2 ha)
  case added =>
    intro k a before after hk ih hb ha
    exact leadsMembers_added hk (ih hb ha.2)
  case kept =>
    intro k b a before after hpair ih hb ha
    exact leadsMembers_kept (hpair hb.1 ha.1) (ih hb.2 ha.2)
  case grown =>
    intro after _ _ front
    refine ⟨after, ?_, Json.sameElements_refl after⟩
    rw [diffElements, List.append_nil, performOn?_additions]
  case shrunk =>
    intro before _ _ front
    refine ⟨[], ?_, by rw [Json.sameElements]⟩
    rw [diffElements_nil, performOn?_removals List.length_append, List.take_left, List.append_nil]
  case element =>
    intro b a before after hpair ih hb ha
    exact leadsElements_element (hpair hb.1 ha.1) (ih hb.2 ha.2)

/-- The operations of the diff of two documents, applied to the first one after another, never fail
and end in a document equal to the second. -/
theorem performOn?_diff {before after : Json} (hbefore : before.Ordered) (hafter : after.Ordered) :
    ∃ result, performOn? (diff before after) before = some result ∧
      result.same after = true ∧ result.Ordered := by
  obtain ⟨result, hrun, hsame⟩ := leads_of_ordered before after hbefore hafter
  exact ⟨result, hrun, hsame, Json.ordered_of_same hsame hafter⟩

/-- Arrays that shrink and grow inside objects, a value of another kind, keys with marks in them. -/
theorem performOn?_diff_nested :
    ∃ result, performOn?
      (diff
        (.obj [("", .arr [.int 1, .obj [("a~b", .null)], .int 3]), ("a/b", .obj [("k", .arr [])])])
        (.obj [("", .arr [.int 1, .obj [("a~b", .arr [])]]), ("a/b", .obj [("k", .arr [.int 2])])]))
      (.obj [("", .arr [.int 1, .obj [("a~b", .null)], .int 3]), ("a/b", .obj [("k", .arr [])])]) =
        some result ∧
      result.same
        (.obj [("", .arr [.int 1, .obj [("a~b", .arr [])]]), ("a/b", .obj [("k", .arr [.int 2])])]) =
        true ∧
      result.Ordered :=
  performOn?_diff
    (by
      simp only [Json.Ordered, Json.OrderedMembers, Json.OrderedElements, Dict.Sorted]
      decide)
    (by
      simp only [Json.Ordered, Json.OrderedMembers, Json.OrderedElements, Dict.Sorted]
      decide)

end ClusterGate.Patch
