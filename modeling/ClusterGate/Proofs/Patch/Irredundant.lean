import ClusterGate.Proofs.Patch.RoundTrip

/-!
# No operation of a diff can be left out

Some of the operations of a diff, in their order but not all of them, either fail somewhere or end in
a document that is not the second one. A key that was left stays or is missing, an array that was not
grown or shrunk all the way has another length, and a value that was not replaced is still the old
one. Main statement: `differs_of_sublist`.
-/

namespace ClusterGate.Patch

variable {front rest before after : List (String × Json)} {k : String} {v b a result : Json}
  {ops : List Operation} {op : Operation}

/-! ### Runs on a part and on its end -/

theorem performOn?_of_append {first second : List Operation} {doc : Json}
    (h : performOn? (first ++ second) doc = some result) :
    ∃ between, performOn? first doc = some between ∧ performOn? second between = some result := by
  rw [performOn?_append] at h
  exact Option.bind_eq_some_iff.mp h

/-- Some operations of the diff of a part, moved under its token, run inside the part. -/
theorem performOn?_of_sublist_push {token : String} {around : Json → Json}
    (haround : Json.IsAround token around) {doc : Json}
    (hops : ops.Sublist (diffAt (Pointer.push "" token) b a))
    (h : performOn? ops (around b) = some doc) :
    ∃ inner part, inner.Sublist (diff b a) ∧ ops = inner.map (·.under (Pointer.push "" token)) ∧
      performOn? inner b = some part ∧ doc = around part := by
  rw [diffAt_push] at hops
  obtain ⟨inner, hinner, rfl⟩ := List.sublist_map_iff.mp hops
  have hall : ∀ op ∈ inner, op.IsInner := fun op hop => inner_of_mem_diff b a op (hinner.subset hop)
  rw [performOn?_map_under haround hall] at h
  obtain ⟨part, hpart, rfl⟩ := Option.map_eq_some_iff.mp h
  exact ⟨inner, part, hinner, rfl, hpart, rfl⟩

theorem mem_additions {index : Nat} {vs : List Json} (h : op ∈ additions "" index vs) :
    ∃ i v, index ≤ i ∧ op = .add (Pointer.push "" (toString i)) v := by
  induction vs generalizing index with
  | nil => cases h
  | cons v vs ih =>
    rcases List.mem_cons.mp h with rfl | h
    · exact ⟨index, v, Nat.le_refl index, by rw [push_index]⟩
    · obtain ⟨i, w, hi, rfl⟩ := ih h
      exact ⟨i, w, by omega, rfl⟩

theorem mem_removals {first n : Nat} (h : op ∈ removals "" first n) :
    ∃ i, first ≤ i ∧ op = .remove (Pointer.push "" (toString i)) := by
  induction n with
  | zero => cases h
  | succ n ih =>
    rcases List.mem_cons.mp h with rfl | h
    · exact ⟨first + n, by omega, by rw [push_index]⟩
    · exact ih h

theorem insertIdx_append {front vs : List Json} {i : Nat} (hi : front.length ≤ i) :
    (front ++ vs).insertIdx i v = front ++ vs.insertIdx (i - front.length) v := by
  induction front generalizing i with
  | nil => rfl
  | cons w front ih =>
    rw [List.length_cons] at hi ⊢
    obtain ⟨j, rfl⟩ : ∃ j, i = j + 1 := ⟨i - 1, by omega⟩
    rw [List.cons_append, List.insertIdx_succ_cons, ih (by omega), Nat.add_sub_add_right,
      List.cons_append]

/-- An addition behind some elements leaves them and makes the array one longer. -/
theorem add_behind {front vs : List Json} {i : Nat} (hi : front.length ≤ i)
    (h : (Operation.add (Pointer.push "" (toString i)) v).performOn? (.arr (front ++ vs)) =
      some result) : ∃ ws, result = .arr (front ++ ws) ∧ ws.length = vs.length + 1 := by
  have hdash : toString i ≠ "-" := by
    intro hdash
    have hindex := Json.index?_toString i
    rw [hdash] at hindex
    simp [Json.index?, Text.isDigit] at hindex
  simp only [Operation.performOn?, Pointer.tokens?_push_root, Json.descend?, Json.addAt?,
    if_neg hdash, Json.index?_toString, Option.bind_eq_bind, Option.bind_some] at h
  split at h
  next hle =>
    cases h
    rw [List.length_append] at hle
    refine ⟨vs.insertIdx (i - front.length) v, ?_, List.length_insertIdx_of_le_length (by omega) v⟩
    rw [insertIdx_append hi]
  next => contradiction

/-- A removal behind some elements leaves them and makes the array one shorter. -/
theorem remove_behind {front vs : List Json} {i : Nat} (hi : front.length ≤ i)
    (h : (Operation.remove (Pointer.push "" (toString i))).performOn? (.arr (front ++ vs)) =
      some result) : ∃ ws, result = .arr (front ++ ws) ∧ ws.length + 1 = vs.length := by
  simp only [Operation.performOn?, Pointer.tokens?_push_root, Json.descend?, Json.removeAt?,
    Json.index?_toString, Option.bind_eq_bind, Option.bind_some] at h
  split at h
  next hlt =>
    cases h
    rw [List.length_append] at hlt
    have hbehind : i - front.length < vs.length := by omega
    refine ⟨vs.eraseIdx (i - front.length), ?_, ?_⟩
    · rw [List.eraseIdx_append_of_length_le hi]
    · rw [List.length_eraseIdx_of_lt hbehind]
      omega
  next => contradiction

theorem length_of_additions {front vs : List Json}
    (hops : ∀ op ∈ ops, ∃ i v, front.length ≤ i ∧ op = .add (Pointer.push "" (toString i)) v)
    (h : performOn? ops (.arr (front ++ vs)) = some result) :
    ∃ ws, result = .arr (front ++ ws) ∧ ws.length = vs.length + ops.length := by
  induction ops generalizing vs with
  | nil =>
    cases h
    exact ⟨vs, rfl, rfl⟩
  | cons op ops ih =>
    obtain ⟨⟨i, v, hi, rfl⟩, hrest⟩ := List.forall_mem_cons.mp hops
    rw [performOn?_cons] at h
    obtain ⟨doc, hfirst, h⟩ := Option.bind_eq_some_iff.mp h
    obtain ⟨us, rfl, hus⟩ := add_behind hi hfirst
    obtain ⟨ws, hresult, hws⟩ := ih hrest h
    refine ⟨ws, hresult, ?_⟩
    rw [List.length_cons]
    omega

theorem length_of_removals {front vs : List Json}
    (hops : ∀ op ∈ ops, ∃ i, front.length ≤ i ∧ op = .remove (Pointer.push "" (toString i)))
    (h : performOn? ops (.arr (front ++ vs)) = some result) :
    ∃ ws, result = .arr (front ++ ws) ∧ ws.length + ops.length = vs.length := by
  induction ops generalizing vs with
  | nil =>
    cases h
    exact ⟨vs, rfl, rfl⟩
  | cons op ops ih =>
    obtain ⟨⟨i, hi, rfl⟩, hrest⟩ := List.forall_mem_cons.mp hops
    rw [performOn?_cons] at h
    obtain ⟨doc, hfirst, h⟩ := Option.bind_eq_some_iff.mp h
    obtain ⟨us, rfl, hus⟩ := remove_behind hi hfirst
    obtain ⟨ws, hresult, hws⟩ := ih hrest h
    refine ⟨ws, hresult, ?_⟩
    rw [List.length_cons]
    omega

theorem length_additions (path : String) (index : Nat) (vs : List Json) :
    (additions path index vs).length = vs.length := by
  induction vs generalizing index with
  | nil => rfl
  | cons v vs ih => rw [additions, List.length_cons, List.length_cons, ih]

theorem length_removals (path : String) (first n : Nat) : (removals path first n).length = n := by
  induction n with
  | zero => rfl
  | succ n ih => rw [removals, List.length_cons, ih]

theorem length_of_sameElements {vs ws : List Json} (h : Json.sameElements vs ws = true) :
    vs.length = ws.length := by
  induction vs generalizing ws with
  | nil =>
    cases ws with
    | nil => rfl
    | cons w ws => simp [Json.sameElements] at h
  | cons v vs ih =>
    cases ws with
    | nil => simp [Json.sameElements] at h
    | cons w ws => rw [List.length_cons, List.length_cons, ih (Json.sameElements_cons.mp h).2]

/-! ### The walk -/

/-- Operations of the diff of two values that lead from the first to the second are all of them. -/
def Needs (b a : Json) : Prop :=
  ∀ ops, ops.Sublist (diff b a) → ∀ result, performOn? ops b = some result → result.same a = true →
    ops = diff b a

/-- With the members in `front` settled, some operations of the rest of the walk leave them as they
are. Behind them they leave no key that is in neither object, and what is wanted there only if they
are all the operations. -/
def NeedsMembers (before after : List (String × Json)) : Prop :=
  ∀ front, Dict.Sorted (front ++ before) → Dict.Sorted (front ++ after) →
    ∀ ops, ops.Sublist (diffMembers "" before after) →
    ∀ result, performOn? ops (.obj (front ++ before)) = some result →
    ∃ rest, result = .obj (front ++ rest) ∧
      (∀ key ∈ Dict.keys rest, key ∈ Dict.keys before ∨ key ∈ Dict.keys after) ∧
      (Json.sameMembers rest after = true → ops = diffMembers "" before after)

/-- With the elements in `front` settled, some operations of the rest of the walk leave them as they
are, and behind them what is wanted only if they are all the operations. -/
def NeedsElements (before after : List Json) : Prop :=
  ∀ front ops, ops.Sublist (diffElements "" (List.length front) before after) →
    ∀ result, performOn? ops (.arr (front ++ before)) = some result →
    ∃ rest, result = .arr (front ++ rest) ∧
      (Json.sameElements rest after = true → ops = diffElements "" front.length before after)

theorem keys_cons (k : String) (v : Json) (rest : List (String × Json)) :
    Dict.keys ((k, v) :: rest) = k :: Dict.keys rest := rfl

theorem lt_keys {members : Dict Json} (hsorted : Dict.Sorted members)
    (hk : ∀ e ∈ members.head?, k < e.1) : ∀ key ∈ Dict.keys members, k < key := by
  cases members with
  | nil => exact fun key hkey => absurd hkey List.not_mem_nil
  | cons first members =>
    have hfirst : k < first.1 := hk first rfl
    intro key hkey
    obtain ⟨w, hw⟩ := Dict.mem_keys_iff.mp hkey
    rcases List.mem_cons.mp hw with heq | hw
    · rw [← heq] at hfirst
      exact hfirst
    · exact String.lt_trans hfirst ((Dict.sorted_cons.mp hsorted).1 _ hw)

theorem needs_leaf (h : ¬Json.IsNest b a) : Needs b a := by
  intro ops hops result hrun hsame
  rw [diff, diffAt_of_not_nest h] at hops ⊢
  split at hops
  next heq => rw [if_pos heq, List.sublist_nil.mp hops]
  next hne =>
    rw [if_neg hne]
    rcases List.sublist_singleton.mp hops with rfl | rfl
    · cases hrun
      contradiction
    · rfl

theorem needsMembers_removed (hk : ∀ e ∈ after.head?, k < e.1) (ih : NeedsMembers before after) :
    NeedsMembers ((k, b) :: before) after := by
  intro front hbefore hafter ops hops result hrun
  have hahead := lt_keys (List.pairwise_append.mp hafter).2.1 hk
  rw [diffMembers_removed hk] at hops ⊢
  rcases List.sublist_cons_iff.mp hops with hops | ⟨others, rfl, hothers⟩
  · -- the key is left in place, and the second object does not have it
    have hmiddle : Dict.Sorted (front ++ [(k, b)] ++ after) := by
      rw [← List.append_cons]
      apply hafter.insert_between hbefore.front_lt
      intro e he
      exact hahead e.1 (Dict.mem_keys_iff.mpr ⟨e.2, he⟩)
    rw [List.append_cons] at hbefore hrun
    obtain ⟨rest, rfl, hkeys, -⟩ := ih (front ++ [(k, b)]) hbefore hmiddle ops hops result hrun
    refine ⟨(k, b) :: rest, by rw [← List.append_cons], ?_, ?_⟩
    · intro key hkey
      rw [keys_cons] at hkey ⊢
      rcases List.mem_cons.mp hkey with rfl | hkey
      · exact Or.inl List.mem_cons_self
      · exact (hkeys key hkey).imp_left (List.mem_cons_of_mem k)
    · intro hsame
      have heq := Json.keys_of_sameMembers hsame
      have hmem : k ∈ Dict.keys after := heq ▸ List.mem_cons_self
      exact absurd (hahead k hmem) (String.lt_irrefl k)
  · rw [performOn?_cons, performOn?_remove_member hbefore, Option.bind_some] at hrun
    obtain ⟨rest, hresult, hkeys, hall⟩ := ih front hbefore.drop hafter others hothers result hrun
    refine ⟨rest, hresult, ?_, ?_⟩
    · intro key hkey
      exact (hkeys key hkey).imp_left (List.mem_cons_of_mem k)
    · intro hsame
      rw [hall hsame]

theorem needsMembers_added (hk : ∀ e ∈ before.head?, k < e.1) (ih : NeedsMembers before after) :
    NeedsMembers before ((k, a) :: after) := by
  intro front hbefore hafter ops hops result hrun
  have hahead := lt_keys (List.pairwise_append.mp hbefore).2.1 hk
  rw [diffMembers_added hk] at hops ⊢
  rcases List.sublist_cons_iff.mp hops with hops | ⟨others, rfl, hothers⟩
  · -- the key is missing, and nothing puts it in later
    obtain ⟨rest, rfl, hkeys, -⟩ := ih front hbefore hafter.drop ops hops result hrun
    refine ⟨rest, rfl, ?_, ?_⟩
    · intro key hkey
      exact (hkeys key hkey).imp_right (List.mem_cons_of_mem k)
    · intro hsame
      have hmem : k ∈ Dict.keys rest := by
        rw [Json.keys_of_sameMembers hsame]
        exact List.mem_cons_self
      rcases hkeys k hmem with hbehind | hbehind
      · exact absurd (hahead k hbehind) (String.lt_irrefl k)
      · obtain ⟨w, hw⟩ := Dict.mem_keys_iff.mp hbehind
        exact absurd (hafter.lt_rest (k, w) hw) (String.lt_irrefl k)
  · have hmiddle : Dict.Sorted (front ++ (k, a) :: before) := by
      apply hbefore.insert_between hafter.front_lt
      intro e he
      exact hahead e.1 (Dict.mem_keys_iff.mpr ⟨e.2, he⟩)
    rw [performOn?_cons, performOn?_add_member hmiddle, Option.bind_some, List.append_cons] at hrun
    rw [List.append_cons] at hmiddle hafter
    obtain ⟨rest, rfl, hkeys, hall⟩ := ih (front ++ [(k, a)]) hmiddle hafter others hothers result hrun
    refine ⟨(k, a) :: rest, by rw [← List.append_cons], ?_, ?_⟩
    · intro key hkey
      rw [keys_cons] at hkey ⊢
      rcases List.mem_cons.mp hkey with rfl | hkey
      · exact Or.inr List.mem_cons_self
      · exact (hkeys key hkey).imp_right (List.mem_cons_of_mem k)
    · intro hsame
      rw [hall (Json.sameMembers_cons.mp hsame).2]

theorem needsMembers_kept (hpair : Needs b a) (ih : NeedsMembers before after) :
    NeedsMembers ((k, b) :: before) ((k, a) :: after) := by
  intro front hbefore hafter ops hops result hrun
  rw [diffMembers_kept] at hops ⊢
  obtain ⟨first, others, rfl, hfirst, hothers⟩ := List.sublist_append_iff.mp hops
  obtain ⟨doc, hinside, hrun⟩ := performOn?_of_append hrun
  obtain ⟨inner, part, hinner, rfl, hpart, rfl⟩ :=
    performOn?_of_sublist_push (Json.isAround_member hbefore) hfirst hinside
  have hmiddle : Dict.Sorted (front ++ (k, part) :: before) := hbefore.replace
  have hahead : Dict.Sorted (front ++ (k, part) :: after) := hafter.replace
  rw [List.append_cons] at hmiddle hahead hrun
  obtain ⟨rest, rfl, hkeys, hall⟩ := ih (front ++ [(k, part)]) hmiddle hahead others hothers result hrun
  refine ⟨(k, part) :: rest, by rw [← List.append_cons], ?_, ?_⟩
  · intro key hkey
    rw [keys_cons] at hkey ⊢
    rcases List.mem_cons.mp hkey with rfl | hkey
    · exact Or.inl List.mem_cons_self
    · exact (hkeys key hkey).imp (List.mem_cons_of_mem k) (List.mem_cons_of_mem k)
  · intro hsame
    obtain ⟨hvalue, hrest⟩ := Json.sameMembers_cons.mp hsame
    rw [hall hrest, hpair inner hinner part hpart hvalue, diffAt_push]

theorem needsElements_grown (after : List Json) : NeedsElements [] after := by
  intro front ops hops result hrun
  rw [diffElements] at hops ⊢
  obtain ⟨rest, rfl, hlength⟩ :=
    length_of_additions (fun op hop => mem_additions (hops.subset hop)) hrun
  refine ⟨rest, rfl, fun hsame => ?_⟩
  -- each operation adds one element, so that all are there only if none is missing
  apply hops.eq_of_length
  have hsame := length_of_sameElements hsame
  rw [length_additions]
  simp only [List.length_nil] at hlength
  omega

theorem needsElements_shrunk (before : List Json) : NeedsElements before [] := by
  intro front ops hops result hrun
  rw [diffElements_nil] at hops ⊢
  obtain ⟨rest, rfl, hlength⟩ :=
    length_of_removals (fun op hop => mem_removals (hops.subset hop)) hrun
  refine ⟨rest, rfl, fun hsame => ?_⟩
  -- each operation takes one element away
  apply hops.eq_of_length
  have hsame := length_of_sameElements hsame
  rw [length_removals]
  simp only [List.length_nil] at hsame
  omega

theorem needsElements_element {before after : List Json} (hpair : Needs b a)
    (ih : NeedsElements before after) : NeedsElements (b :: before) (a :: after) := by
  intro front ops hops result hrun
  rw [diffElements, push_index] at hops ⊢
  obtain ⟨first, others, rfl, hfirst, hothers⟩ := List.sublist_append_iff.mp hops
  obtain ⟨doc, hinside, hrun⟩ := performOn?_of_append hrun
  obtain ⟨inner, part, hinner, rfl, hpart, rfl⟩ :=
    performOn?_of_sublist_push (Json.isAround_element front before) hfirst hinside
  have hlength : front.length + 1 = (front ++ [part]).length := by simp
  rw [List.append_cons] at hrun
  rw [hlength] at hothers ⊢
  obtain ⟨rest, rfl, hall⟩ := ih (front ++ [part]) others hothers result hrun
  refine ⟨part :: rest, by rw [← List.append_cons], fun hsame => ?_⟩
  obtain ⟨hvalue, hrest⟩ := Json.sameElements_cons.mp hsame
  rw [hall hrest, hpair inner hinner part hpart hvalue, diffAt_push]

theorem needs_of_ordered (b a : Json) : b.Ordered → a.Ordered → Needs b a := by
  refine diff_induction
    (P := fun b a => b.Ordered → a.Ordered → Needs b a)
    (M := fun before after => Json.OrderedMembers before → Json.OrderedMembers after →
      NeedsMembers before after)
    (E := fun before after => Json.OrderedElements before → Json.OrderedElements after →
      NeedsElements before after)
    ?leaf ?objects ?arrays ?done ?removed ?added ?kept ?grown ?shrunk ?element b a
  case leaf => exact fun b a h _ _ => needs_leaf h
  case objects =>
    intro before after h hb ha ops hops result hrun hsame
    obtain ⟨hbefore, hbvalues⟩ := hb
    obtain ⟨hafter, havalues⟩ := ha
    rw [diff, diffAt] at hops ⊢
    obtain ⟨rest, rfl, -, hall⟩ := h hbvalues havalues [] hbefore hafter ops hops result hrun
    rw [List.nil_append, Json.same] at hsame
    exact hall hsame
  case arrays =>
    intro before after h hb ha ops hops result hrun hsame
    rw [diff, diffAt] at hops ⊢
    obtain ⟨rest, rfl, hall⟩ := h hb ha [] ops hops result hrun
    rw [List.nil_append, Json.same] at hsame
    exact hall hsame
  case done =>
    intro _ _ front _ _ ops hops result hrun
    rw [diffMembers, List.sublist_nil] at hops
    subst hops
    cases hrun
    refine ⟨[], rfl, fun key hkey => absurd hkey List.not_mem_nil, fun _ => by rw [diffMembers]⟩
  case removed =>
    intro k b before after hk ih hb ha
    exact needsMembers_removed hk (ih hb.2 ha)
  case added =>
    intro k a before after hk ih hb ha
    exact needsMembers_added hk (ih hb ha.2)
  case kept =>
    intro k b a before after hpair ih hb ha
    exact needsMembers_kept (hpair hb.1 ha.1) (ih hb.2 ha.2)
  case grown => exact fun after _ _ => needsElements_grown after
  case shrunk => exact fun before _ _ => needsElements_shrunk before
  case element =>
    intro b a before after hpair ih hb ha
    exact needsElements_element (hpair hb.1 ha.1) (ih hb.2 ha.2)

/-- Some but not all operations of the diff of two documents, applied to the first one, fail or end in
a document other than the second. So there are none exactly if the two documents are equal. -/
theorem differs_of_sublist {before after : Json} (hbefore : before.Ordered) (hafter : after.Ordered) :
    (∀ ops, ops.Sublist (diff before after) → ops ≠ diff before after →
      ∀ result, performOn? ops before = some result → result.same after = false) ∧
      (diff before after = [] ↔ before.same after = true) := by
  have hneeds := needs_of_ordered before after hbefore hafter
  refine ⟨?_, ?_, ?_⟩
  · intro ops hops hfew result hrun
    rw [← Bool.not_eq_true]
    intro hsame
    exact hfew (hneeds ops hops result hrun hsame)
  · intro hnone
    obtain ⟨result, hrun, hsame⟩ := leads_of_ordered before after hbefore hafter
    rw [hnone] at hrun
    cases hrun
    exact hsame
  · intro hsame
    exact (hneeds [] (List.nil_sublist _) before rfl hsame).symm

/-- An array that loses two elements and a value inside an object: three operations, none to spare. -/
theorem differs_of_sublist_nested :
    let before := Json.obj [("list", .arr [.int 1, .int 2, .int 3]), ("slot", .obj [("k", .null)])]
    let after := Json.obj [("list", .arr [.int 1]), ("slot", .obj [("k", .int 5)])]
    let kept := [Operation.remove "/list/2", .replace "/slot/k" (.int 5)]
    diff before after = [.remove "/list/2", .remove "/list/1", .replace "/slot/k" (.int 5)] ∧
      ∃ result, performOn? kept before = some result ∧ result.same after = false := by
  intro before after kept
  have hdiff : diff before after =
      [.remove "/list/2", .remove "/list/1", .replace "/slot/k" (.int 5)] := by
    have hpaths : Pointer.push "" "list" ++ "/" ++ Nat.repr 2 = "/list/2" ∧
        Pointer.push "" "list" ++ "/" ++ Nat.repr 1 = "/list/1" ∧
        Pointer.push (Pointer.push "" "slot") "k" = "/slot/k" := by decide +kernel
    simp [before, after, diff, diffAt, diffMembers, diffElements, removals, Json.same, hpaths]
  have hbefore : before.Ordered := by
    simp only [before, Json.Ordered, Json.OrderedMembers, Json.OrderedElements, Dict.Sorted]
    decide
  have hafter : after.Ordered := by
    simp only [after, Json.Ordered, Json.OrderedMembers, Json.OrderedElements, Dict.Sorted]
    decide
  obtain ⟨hfew, -⟩ := differs_of_sublist hbefore hafter
  rw [hdiff] at hfew
  have hsub : kept.Sublist [.remove "/list/2", .remove "/list/1", .replace "/slot/k" (.int 5)] :=
    .cons_cons _ (.cons _ (.refl _))
  have hsome : (performOn? kept before).isSome = true := by decide +kernel
  obtain ⟨result, hrun⟩ := Option.isSome_iff_exists.mp hsome
  exact ⟨hdiff, result, hrun, hfew kept hsub (by simp [kept]) result hrun⟩

end ClusterGate.Patch
