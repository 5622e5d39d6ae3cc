import ClusterGate.Proofs.Patch.ByToken
import ClusterGate.Proofs.Text.Utf8

/-!
# Where the operations of a diff stand

The operations of a diff say what is at their places in the two documents, no place is inside another
one, and they come in the order of the documents: by the bytes of the keys and by index, apart from
the removals at the end of an array, which come from the last element on. Main statement:
`diff_positions`.
-/

namespace ClusterGate.Patch

open Json (IsNest)

variable {old new : Option Json} {b a : Json} {op x y : Operation} {token : String}
  {tokens : List String}

namespace Operation

/-- The operation says what is at its place: an addition the value that is there in the new document
only, a removal that there is something in the old one only, and a replacement the new value, which
differs from the old one and is not of its kind if both have parts. -/
def Holds (old new : Option Json) (op : Operation) : Prop :=
  ∃ tokens, Pointer.tokens? op.path = some tokens ∧ match op with
    | .add _ v => old.bind (Json.at? tokens) = none ∧ new.bind (Json.at? tokens) = some v
    | .remove _ => (∃ u, old.bind (Json.at? tokens) = some u) ∧ new.bind (Json.at? tokens) = none
    | .replace _ v => ∃ u, old.bind (Json.at? tokens) = some u ∧
      new.bind (Json.at? tokens) = some v ∧ u.same v = false ∧ ¬IsNest u v

/-- The operation removes an element itself, and its index is not among the first `n`. -/
def Drops (n i : Nat) (inside : List String) (op : Operation) : Prop :=
  op.name = "remove" ∧ inside = [] ∧ n ≤ i

/-- Two operations part in an object or an array that is in both documents, the first one towards the
smaller key or index; only of two removals behind the end of the new array the later element comes
first. -/
inductive Precedes (old new : Option Json) (x y : Operation) : Prop
  | members (above : List String) (s t : String) (xs ys : List String)
      (before after : List (String × Json))
      (first : Pointer.tokens? x.path = some (above ++ s :: xs))
      (second : Pointer.tokens? y.path = some (above ++ t :: ys))
      (inOld : old.bind (Json.at? above) = some (.obj before))
      (inNew : new.bind (Json.at? above) = some (.obj after))
      (order : Text.bytes s < Text.bytes t)
  | elements (above : List String) (i j : Nat) (xs ys : List String) (before after : List Json)
      (first : Pointer.tokens? x.path = some (above ++ toString i :: xs))
      (second : Pointer.tokens? y.path = some (above ++ toString j :: ys))
      (inOld : old.bind (Json.at? above) = some (.arr before))
      (inNew : new.bind (Json.at? above) = some (.arr after))
      (order : x.Drops after.length i xs ∧ y.Drops after.length j ys ∧ j < i ∨
        ¬(x.Drops after.length i xs ∧ y.Drops after.length j ys) ∧ i < j)

/-- The places of two operations are not the same, and neither is inside the other. -/
def Apart (x y : Operation) : Prop :=
  ∃ xs ys, Pointer.tokens? x.path = some xs ∧ Pointer.tokens? y.path = some ys ∧
    ¬xs <+: ys ∧ ¬ys <+: xs

theorem apart_of_parted {above xs ys : List String} {s t : String} (h : s ≠ t)
    (hx : Pointer.tokens? x.path = some (above ++ s :: xs))
    (hy : Pointer.tokens? y.path = some (above ++ t :: ys)) : x.Apart y := by
  refine ⟨_, _, hx, hy, ?_, ?_⟩
  · rw [List.prefix_append_right_inj, List.cons_prefix_cons]
    exact fun hprefix => h hprefix.1
  · rw [List.prefix_append_right_inj, List.cons_prefix_cons]
    exact fun hprefix => h hprefix.1.symm

theorem toString_inj {i j : Nat} (h : toString i = toString j) : i = j := by
  have hi := Json.index?_toString i
  rw [h, Json.index?_toString] at hi
  exact (Option.some.inj hi).symm

theorem Precedes.apart (h : x.Precedes old new y) : x.Apart y := by
  cases h with
  | members above s t xs ys before after first second _ _ order =>
    apply apart_of_parted _ first second
    rintro rfl
    exact String.lt_irrefl s (Text.lt_iff_bytes.mpr order)
  | elements above i j xs ys before after first second _ _ order =>
    apply apart_of_parted _ first second
    intro heq
    have hij := toString_inj heq
    omega

/-! ### One step further up -/

theorem name_under (above : String) (op : Operation) : (op.under above).name = op.name := by
  cases op <;> rfl

theorem tokens?_under (h : Pointer.tokens? op.path = some tokens) :
    Pointer.tokens? (op.under (Pointer.push "" token)).path = some (token :: tokens) := by
  rw [path_under]
  exact Pointer.tokens?_push_append token h

theorem drops_under {n i : Nat} {inside : List String} (above : String) :
    (op.under above).Drops n i inside ↔ op.Drops n i inside := by
  rw [Drops, Drops, name_under]

theorem Holds.under (h : op.Holds (b.step? token) (a.step? token)) :
    (op.under (Pointer.push "" token)).Holds (some b) (some a) := by
  obtain ⟨tokens, hread, hplace⟩ := h
  refine ⟨token :: tokens, tokens?_under hread, ?_⟩
  cases op with
  | add path v => exact hplace
  | remove path => exact hplace
  | replace path v => exact hplace

theorem Precedes.under (h : x.Precedes (b.step? token) (a.step? token) y) :
    (x.under (Pointer.push "" token)).Precedes (some b) (some a)
      (y.under (Pointer.push "" token)) := by
  cases h with
  | members above s t xs ys before after first second inOld inNew order =>
    apply Precedes.members (token :: above) s t xs ys before after
    · exact tokens?_under first
    · exact tokens?_under second
    · exact inOld
    · exact inNew
    · exact order
  | elements above i j xs ys before after first second inOld inNew order =>
    apply Precedes.elements (token :: above) i j xs ys before after
    · exact tokens?_under first
    · exact tokens?_under second
    · exact inOld
    · exact inNew
    · rw [drops_under, drops_under]
      exact order

end Operation

open Operation

/-! ### Places and order -/

/-- The operations say what is at their places, and they come in the order of the documents. -/
structure Placed (old new : Option Json) (ops : List Operation) : Prop where
  holds : ∀ op ∈ ops, op.Holds old new
  precedes : ops.Pairwise (Precedes old new)

theorem placed_nil : Placed old new [] := ⟨by simp, List.Pairwise.nil⟩

theorem placed_singleton (h : op.Holds old new) : Placed old new [op] :=
  ⟨List.forall_mem_singleton.mpr h, List.pairwise_singleton _ _⟩

theorem placed_leaf (h : ¬IsNest b a) : Placed (some b) (some a) (diff b a) := by
  rw [diff, diffAt_of_not_nest h]
  split
  next => exact placed_nil
  next hsame =>
    apply placed_singleton
    exact ⟨[], Pointer.tokens?_empty, b, rfl, rfl, Bool.eq_false_iff.mpr hsame, h⟩

theorem placed_slotDiff
    (h : ∀ v w, old = some v → new = some w → Placed (some v) (some w) (diff v w)) :
    Placed old new (slotDiff old new) := by
  match old, new with
  | some v, some w => exact h v w rfl rfl
  | some v, none => exact placed_singleton ⟨[], Pointer.tokens?_empty, ⟨v, rfl⟩, rfl⟩
  | none, some w => exact placed_singleton ⟨[], Pointer.tokens?_empty, rfl, rfl⟩
  | none, none => exact placed_nil

theorem placed_tokenDiff
    (h : Placed (b.step? token) (a.step? token) (slotDiff (b.step? token) (a.step? token))) :
    Placed (some b) (some a) (tokenDiff b a token) := by
  constructor
  · intro x hx
    obtain ⟨op, hop, rfl⟩ := List.mem_map.mp hx
    exact (h.holds op hop).under
  · rw [tokenDiff, List.pairwise_map]
    exact h.precedes.imp Precedes.under

theorem tokens?_of_mem_tokenDiff (h : x ∈ tokenDiff b a token) :
    ∃ inside, Pointer.tokens? x.path = some (token :: inside) := by
  obtain ⟨op, hop, rfl⟩ := List.mem_map.mp h
  obtain ⟨inside, hread⟩ := Option.isSome_iff_exists.mp (isPointer_of_mem_slotDiff hop)
  exact ⟨inside, tokens?_under hread⟩

/-- What is emitted for a place that is in the old document only is its removal. -/
theorem removal_of_mem_tokenDiff {v : Json} (hold : b.step? token = some v)
    (hnew : a.step? token = none) (h : x ∈ tokenDiff b a token) :
    x.name = "remove" ∧ Pointer.tokens? x.path = some [token] := by
  rw [tokenDiff, hold, hnew] at h
  obtain ⟨op, hop, rfl⟩ := List.mem_map.mp h
  obtain rfl := List.mem_singleton.mp hop
  exact ⟨rfl, tokens?_under Pointer.tokens?_empty⟩

/-- What is emitted for one token precedes what is emitted for the tokens that come after it. -/
theorem visited_precedes (hnest : IsNest b a) : (visited b a).Pairwise fun s t =>
    ∀ x ∈ tokenDiff b a s, ∀ y ∈ tokenDiff b a t, x.Precedes (some b) (some a) y := by
  match b, a, hnest with
  | .obj before, .obj after, _ =>
    apply (sortedSet_sorted _).imp
    intro s t hst x hx y hy
    obtain ⟨xs, hxs⟩ := tokens?_of_mem_tokenDiff hx
    obtain ⟨ys, hys⟩ := tokens?_of_mem_tokenDiff hy
    exact .members [] s t xs ys before after hxs hys rfl rfl (Text.lt_iff_bytes.mp hst)
  | .arr before, .arr after, _ =>
    rw [visited, List.pairwise_map]
    apply (indices_ordered before.length after.length).imp
    rintro i j (⟨hij, hi⟩ | ⟨hj, hji, hi⟩) x hx y hy
    · obtain ⟨xs, hxs⟩ := tokens?_of_mem_tokenDiff hx
      obtain ⟨ys, hys⟩ := tokens?_of_mem_tokenDiff hy
      refine .elements [] i j xs ys before after hxs hys rfl rfl (Or.inr ⟨?_, hij⟩)
      rintro ⟨⟨-, -, hbehind⟩, -⟩
      omega
    · -- both elements are removed, and nothing else is emitted for them
      have hgone : ∀ k, after.length ≤ k → Json.step? (toString k) (.arr after) = none := by
        intro k hk
        rw [Json.step?_index, List.getElem?_eq_none hk]
      have hthere : ∀ k, k ≤ i → ∃ v, Json.step? (toString k) (.arr before) = some v := by
        intro k hk
        exact ⟨before[k], by rw [Json.step?_index, List.getElem?_eq_getElem]⟩
      obtain ⟨v, hv⟩ := hthere i (by omega)
      obtain ⟨w, hw⟩ := hthere j (by omega)
      obtain ⟨hxname, hxs⟩ := removal_of_mem_tokenDiff hv (hgone i (by omega)) hx
      obtain ⟨hyname, hys⟩ := removal_of_mem_tokenDiff hw (hgone j hj) hy
      refine .elements [] i j [] [] before after hxs hys rfl rfl (Or.inl ⟨?_, ?_, hji⟩)
      · exact ⟨hxname, rfl, by omega⟩
      · exact ⟨hyname, rfl, hj⟩

/-- Two documents with parts: what holds below each token holds of the whole walk. -/
theorem placed_nest (hnest : IsNest b a) (hb : b.Ordered) (ha : a.Ordered)
    (h : ∀ token v w, b.step? token = some v → a.step? token = some w →
      Placed (some v) (some w) (diff v w)) : Placed (some b) (some a) (diff b a) := by
  have htoken : ∀ token, Placed (some b) (some a) (tokenDiff b a token) :=
    fun token => placed_tokenDiff (placed_slotDiff (h token))
  rw [diff_eq_flatMap hnest hb ha]
  constructor
  · intro op hop
    obtain ⟨token, -, hop⟩ := List.mem_flatMap.mp hop
    exact (htoken token).holds op hop
  · apply List.pairwise_flatMap.mpr
    exact ⟨fun token _ => (htoken token).precedes, visited_precedes hnest⟩

theorem placed_diff (hb : b.Ordered) (ha : a.Ordered) : Placed (some b) (some a) (diff b a) :=
  Json.ordered_pair_induction (P := fun b a => Placed (some b) (some a) (diff b a))
    (fun _ _ => placed_leaf) (fun _ _ => placed_nest) b a hb ha

/-- Each operation of the diff of two documents says what is at its place in them, no place is another
one or inside it, and an earlier operation precedes every later one. -/
theorem diff_positions {before after : Json} (hbefore : before.Ordered) (hafter : after.Ordered) :
    (∀ op ∈ diff before after, op.Holds (some before) (some after)) ∧
      (diff before after).Pairwise Apart ∧
      (diff before after).Pairwise (Precedes (some before) (some after)) := by
  obtain ⟨hholds, hprecedes⟩ := placed_diff hbefore hafter
  exact ⟨hholds, hprecedes.imp Precedes.apart, hprecedes⟩

/-- Two removals at the end of a list, the later element first, and a member added behind it. -/
theorem diff_positions_removed :
    let before := Json.obj [("list", .arr [.int 1, .int 2, .int 3])]
    let after := Json.obj [("list", .arr [.int 1]), ("~", .null)]
    diff before after = [.remove "/list/2", .remove "/list/1", .add "/~0" .null] ∧
      (Operation.add "/~0" .null).Holds (some before) (some after) ∧
      (Operation.remove "/list/2").Apart (.remove "/list/1") ∧
      (Operation.remove "/list/2").Precedes (some before) (some after) (.remove "/list/1") ∧
      (Operation.remove "/list/1").Precedes (some before) (some after) (.add "/~0" .null) := by
  intro before after
  have hdiff : diff before after = [.remove "/list/2", .remove "/list/1", .add "/~0" .null] := by
    have hpaths : Pointer.push "" "list" ++ "/" ++ Nat.repr 2 = "/list/2" ∧
        Pointer.push "" "list" ++ "/" ++ Nat.repr 1 = "/list/1" ∧
        Pointer.push "" "~" = "/~0" := by decide +kernel
    simp [before, after, diff, diffAt, diffMembers, diffElements, removals, Json.same, hpaths]
  have hbefore : before.Ordered := by
    simp only [before, Json.Ordered, Json.OrderedMembers, Json.OrderedElements, Dict.Sorted]
    decide
  have hafter : after.Ordered := by
    simp only [after, Json.Ordered, Json.OrderedMembers, Json.OrderedElements, Dict.Sorted]
    decide
  obtain ⟨hholds, hapart, hprecedes⟩ := diff_positions hbefore hafter
  rw [hdiff] at hholds hapart hprecedes
  obtain ⟨hfirst, hrest⟩ := List.pairwise_cons.mp hprecedes
  refine ⟨hdiff, hholds _ (by simp), ?_, hfirst _ (by simp), ?_⟩
  · exact (List.pairwise_cons.mp hapart).1 _ (by simp)
  · exact (List.pairwise_cons.mp hrest).1 _ (by simp)

end ClusterGate.Patch
