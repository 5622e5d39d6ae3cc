import ClusterGate.Proofs.Json.Same
import ClusterGate.Proofs.Patch.Walk

/-!
# A diff, key by key

The walk over the members of two objects emits for each key what the two values under that key ask
for, and nothing else: `diffMembers_eq_flatMap`. A value compared with itself asks for nothing.
-/

namespace ClusterGate.Patch

variable {k : String} {before after : List (String × Json)} {keys : List String}

/-- The operations that turn what is at a place into what shall be there. -/
def slotDiff : Option Json → Option Json → List Operation
  | some b, some a => diff b a
  | some _, none => [.remove ""]
  | none, some a => [.add "" a]
  | none, none => []

theorem diff_self (v : Json) : diff v v = [] := by
  have h : ∀ b a path, b = a → diffAt path b a = [] := by
    intro b a
    refine diff_induction
      (P := fun b a => ∀ path, b = a → diffAt path b a = [])
      (M := fun before after => ∀ path, before = after → diffMembers path before after = [])
      (E := fun before after => ∀ path index, before = after →
        diffElements path index before after = [])
      ?leaf ?objects ?arrays ?done ?removed ?added ?kept ?grown ?shrunk ?element b a
    case leaf =>
      rintro b _ hleaf path rfl
      rw [diffAt_of_not_nest hleaf, if_pos (Json.same_refl b)]
    case objects => intro before after h path heq; rw [diffAt, h path (Json.obj.inj heq)]
    case arrays => intro before after h path heq; rw [diffAt, h path 0 (Json.arr.inj heq)]
    case done => intro path _; rw [diffMembers]
    case removed =>
      rintro k b before _ hk - path rfl
      exact absurd (hk (k, b) rfl) (String.lt_irrefl k)
    case added =>
      rintro k a _ after hk - path rfl
      exact absurd (hk (k, a) rfl) (String.lt_irrefl k)
    case kept =>
      intro k b a before after hpair h path heq
      obtain ⟨hentry, hrest⟩ := List.cons.inj heq
      rw [diffMembers_kept, hpair _ (Prod.mk.inj hentry).2, h path hrest, List.append_nil]
    case grown => rintro _ path index rfl; rw [diffElements, additions]
    case shrunk => rintro _ path index rfl; rw [diffElements_nil, List.length_nil, removals]
    case element =>
      intro b a before after hpair h path index heq
      obtain ⟨hb, hrest⟩ := List.cons.inj heq
      rw [diffElements, hpair _ hb, h path _ hrest, List.append_nil]
  exact h v v "" rfl

theorem slotDiff_self (slot : Option Json) : slotDiff slot slot = [] := by
  cases slot with
  | none => rfl
  | some v => exact diff_self v

theorem isPointer_of_inner {op : Operation} (h : op.IsInner) : Pointer.isPointer op.path = true := by
  cases op with
  | replace path value =>
    obtain ⟨tokens, ht⟩ := h
    exact Option.isSome_of_eq_some ht
  | add path value | remove path =>
    obtain ⟨first, tokens, ht⟩ := h
    exact Option.isSome_of_eq_some ht

theorem isPointer_of_mem_slotDiff {old new : Option Json} {op : Operation}
    (h : op ∈ slotDiff old new) : Pointer.isPointer op.path = true := by
  match old, new with
  | some b, some a => exact isPointer_of_inner (inner_of_mem_diff b a op h)
  | some _, none | none, some _ =>
    obtain rfl := List.mem_singleton.mp h
    rfl
  | none, none => cases h

/-! ### Under ascending keys -/

/-- Of a sorted dictionary below ascending keys, the first key has the first entry or none. -/
theorem first_of_ascending {d : Dict Json} (hd : Dict.Sorted d)
    (hkeys : (k :: keys).Pairwise (· < ·)) (hmem : ∀ l ∈ Dict.keys d, l ∈ k :: keys) :
    (∃ v rest, d = (k, v) :: rest ∧ ∀ l ∈ Dict.keys rest, l ∈ keys) ∨
      ((∀ e ∈ d.head?, k < e.1) ∧ ∀ l ∈ Dict.keys d, l ∈ keys) := by
  cases d with
  | nil => exact Or.inr ⟨by simp, by simp [Dict.keys]⟩
  | cons e rest =>
    obtain ⟨l, v⟩ := e
    have habove : ∀ m ∈ Dict.keys rest, l < m := by
      intro m hm
      obtain ⟨w, hw⟩ := Dict.mem_keys_iff.mp hm
      exact (Dict.sorted_cons.mp hd).1 (m, w) hw
    have hlater : ∀ m, m ∈ k :: keys → k < m → m ∈ keys := by
      intro m hm hlt
      rcases List.mem_cons.mp hm with rfl | hm
      · exact absurd hlt (String.lt_irrefl m)
      · exact hm
    rcases List.mem_cons.mp (hmem l List.mem_cons_self) with rfl | hl
    · refine Or.inl ⟨v, rest, rfl, ?_⟩
      intro m hm
      exact hlater m (hmem m (List.mem_cons_of_mem _ hm)) (habove m hm)
    · have hkl : k < l := (List.pairwise_cons.mp hkeys).1 l hl
      refine Or.inr ⟨?_, ?_⟩
      · rintro e he
        obtain rfl := Option.some.inj he
        exact hkl
      · intro m hm
        rcases List.mem_cons.mp hm with rfl | hm
        · exact hl
        · exact hlater m (hmem m (List.mem_cons_of_mem _ hm)) (String.lt_trans hkl (habove m hm))

theorem get?_cons_of_ascending (hkeys : (k :: keys).Pairwise (· < ·)) (v : Json)
    (d : Dict Json) : ∀ l ∈ keys, Dict.get? l ((k, v) :: d) = Dict.get? l d := by
  intro l hl
  have hkl : k < l := (List.pairwise_cons.mp hkeys).1 l hl
  rw [Dict.get?, if_neg (String.ne_of_lt hkl)]

theorem get?_first_eq_none {d : Dict Json} (hkeys : (k :: keys).Pairwise (· < ·))
    (hmem : ∀ l ∈ Dict.keys d, l ∈ keys) : Dict.get? k d = none := by
  refine Dict.get?_eq_none_iff.mpr fun hk => ?_
  exact String.lt_irrefl k ((List.pairwise_cons.mp hkeys).1 k (hmem k hk))

/-- What the walk emits for a key: the operations of its place, moved under the key. -/
def memberDiff (before after : List (String × Json)) (key : String) : List Operation :=
  (slotDiff (Dict.get? key before) (Dict.get? key after)).map (·.under (Pointer.push "" key))

theorem diffMembers_eq_flatMap (hkeys : keys.Pairwise (· < ·)) (hbefore : Dict.Sorted before)
    (hafter : Dict.Sorted after) (hb : ∀ l ∈ Dict.keys before, l ∈ keys)
    (ha : ∀ l ∈ Dict.keys after, l ∈ keys) :
    diffMembers "" before after = keys.flatMap (memberDiff before after) := by
  induction keys generalizing before after with
  | nil =>
    have hnil : ∀ d : Dict Json, (∀ l ∈ Dict.keys d, l ∈ ([] : List String)) → d = [] := by
      intro d hd
      exact List.map_eq_nil_iff.mp (List.eq_nil_iff_forall_not_mem.mpr fun l hl => by cases hd l hl)
    rw [hnil before hb, hnil after ha, diffMembers, List.flatMap_nil]
  | cons k keys ih =>
    have hrest := (List.pairwise_cons.mp hkeys).2
    have hcongr : ∀ before' after' : List (String × Json),
        (∀ l ∈ keys, Dict.get? l before = Dict.get? l before') →
        (∀ l ∈ keys, Dict.get? l after = Dict.get? l after') →
        keys.flatMap (memberDiff before after) = keys.flatMap (memberDiff before' after') := by
      intro before' after' heqb heqa
      refine List.flatMap_congr fun l hl => ?_
      rw [memberDiff, memberDiff, heqb l hl, heqa l hl]
    -- Each object has the first key or starts behind it; the walk takes one of its steps in each case.
    rcases first_of_ascending hbefore hkeys hb with ⟨b, before, rfl, hbrest⟩ | ⟨hkb, hbrest⟩ <;>
      rcases first_of_ascending hafter hkeys ha with ⟨a, after, rfl, harest⟩ | ⟨hka, harest⟩
    · rw [diffMembers_kept, List.flatMap_cons, diffAt_push,
        ih hrest (Dict.sorted_cons.mp hbefore).2 (Dict.sorted_cons.mp hafter).2 hbrest harest,
        hcongr _ _ (get?_cons_of_ascending hkeys b before) (get?_cons_of_ascending hkeys a after)]
      simp [memberDiff, Dict.get?, slotDiff]
    · rw [diffMembers_removed hka, List.flatMap_cons,
        ih hrest (Dict.sorted_cons.mp hbefore).2 hafter hbrest harest,
        hcongr _ _ (get?_cons_of_ascending hkeys b before) fun _ _ => rfl]
      simp [memberDiff, Dict.get?, get?_first_eq_none hkeys harest, slotDiff, Operation.under]
    · rw [diffMembers_added hkb, List.flatMap_cons,
        ih hrest hbefore (Dict.sorted_cons.mp hafter).2 hbrest harest,
        hcongr _ _ (fun _ _ => rfl) (get?_cons_of_ascending hkeys a after)]
      simp [memberDiff, Dict.get?, get?_first_eq_none hkeys hbrest, slotDiff, Operation.under]
    · rw [ih hrest hbefore hafter hbrest harest, List.flatMap_cons]
      simp [memberDiff, get?_first_eq_none hkeys hbrest, get?_first_eq_none hkeys harest, slotDiff]

end ClusterGate.Patch
