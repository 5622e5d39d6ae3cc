import ClusterGate.Json.Fields
import ClusterGate.Proofs.Dict

/-!
# Fields of written values

What the fields of a record are when it is read from a value: the members of an object by their
keys, or the elements of an array by their positions.
-/

namespace ClusterGate

namespace Doc

variable {names : List String} {name key : String} {s : Slots}

theorem ofElements_eq (vs : List Json) : ofElements vs = vs.map ofValue := by
  induction vs with
  | nil => rfl
  | cons v rest ih => rw [ofElements, ih, List.map_cons]

theorem ofMembers_eq (ms : List (String × Json)) :
    ofMembers ms = ms.map fun m => (m.1, ofValue m.2) := by
  induction ms with
  | nil => rfl
  | cons m rest ih => rw [ofMembers, ih, List.map_cons]

theorem get?_ofMembers (ms : Dict Json) :
    Dict.get? key (ofMembers ms) = (Dict.get? key ms).map ofValue := by
  induction ms with
  | nil => rfl
  | cons m rest ih =>
    obtain ⟨k, v⟩ := m
    rw [ofMembers, Dict.get?, Dict.get?, ih]
    split <;> rfl

theorem eq_str_of_text? {v : Json} {s : String} (h : text? (ofValue v) = some s) : v = .str s := by
  match v, h with
  | .str _, rfl => rfl

theorem get?_of_slots?_obj {members : List (String × Doc)}
    (h : slots? names (.obj members) = some s) (hname : name ∈ names) :
    s.get? name = Dict.get? name members := by
  rw [slots?] at h
  split at h
  next =>
    cases h
    rw [Slots.get?, Dict.get?_eq_find?, List.find?_filter]
    congr 2
    funext entry
    by_cases hentry : entry.1 = name
    · simp [hentry, hname]
    · simp [hentry]
  next => cases h

/-- Where every field stands at most once, the fields are found. -/
theorem slots?_of_count {ms : List (String × Json)}
    (h : ∀ name ∈ names, (ms.map Prod.fst).count name ≤ 1) :
    ∃ s, slots? names (.obj (ofMembers ms)) = some s ∧ s.positional = false ∧ ∀ name ∈ names,
      s.get? name = (Dict.get? name ms).map ofValue := by
  have honce : (names.all fun name =>
      ((ofMembers ms).filter fun m => m.1 == name).length ≤ 1) = true := by
    rw [List.all_eq_true]
    intro name hname
    have hcount : ((ofMembers ms).filter fun m => m.1 == name).length = (ms.map Prod.fst).count name := by
      rw [ofMembers_eq, List.filter_map, List.length_map, ← List.countP_eq_length_filter, List.count,
        List.countP_map]
      rfl
    rw [decide_eq_true_eq, hcount]
    exact h name hname
  have hslots : slots? names (.obj (ofMembers ms)) =
      some ⟨false, (ofMembers ms).filter fun m => names.contains m.1⟩ := by
    rw [slots?, if_pos honce]
  exact ⟨_, hslots, rfl, fun name hname => by rw [get?_of_slots?_obj hslots hname, get?_ofMembers]⟩

theorem slots?_ofMembers (names : List String) {ms : Dict Json} (h : Dict.Sorted ms) :
    ∃ s, slots? names (.obj (ofMembers ms)) = some s ∧ ∀ name ∈ names,
      s.get? name = (Dict.get? name ms).map ofValue := by
  have hnodup : (Dict.keys ms).Nodup := (Dict.sorted_iff_keys.mp h).imp String.ne_of_lt
  obtain ⟨s, hslots, -, hget⟩ :=
    slots?_of_count fun name (_ : name ∈ names) => List.nodup_iff_count_le_one.mp hnodup name
  exact ⟨s, hslots, hget⟩

theorem slots?_object (names : List String) {v : Json} {entries : List (String × Json)}
    (hv : v = Json.object entries) : ∃ s, slots? names (ofValue v) = some s ∧ ∀ name ∈ names,
      s.get? name = ((entries.reverse.find? fun e => e.1 == name).map Prod.snd).map ofValue := by
  obtain ⟨s, hslots, hget⟩ := slots?_ofMembers names (Dict.sorted_ofList entries)
  refine ⟨s, ?_, fun name hname => ?_⟩
  · rw [hv]
    exact hslots
  · rw [hget name hname, Dict.get?_ofList]

/-! ### Single fields -/

theorem mapM_text? (d : Dict String) :
    (ofMembers (d.map fun e => (e.1, Json.str e.2))).mapM
      (fun m => (text? m.2).map fun s => (m.1, s)) = some d := by
  induction d with
  | nil => rfl
  | cons e d ih =>
    rw [List.map_cons, ofMembers, List.mapM_cons, ih]
    rfl

theorem textMap?_ofValue {d : Dict String} (h : Dict.Sorted d) :
    textMap? (ofValue (Json.textMap d)) = some d := by
  rw [Json.textMap, ofValue, textMap?, mapM_text?, Option.map_some, Dict.ofList_of_sorted h]

theorem mapM_ofElements {α : Type} {read : Doc → Option α} {encode : α → Json} {as : List α}
    (h : ∀ a ∈ as, read (ofValue (encode a)) = some a) :
    (ofElements (as.map encode)).mapM read = some as := by
  induction as with
  | nil => rfl
  | cons a rest ih =>
    obtain ⟨hfirst, hrest⟩ := List.forall_mem_cons.mp h
    rw [List.map_cons, ofElements, List.mapM_cons, hfirst, ih hrest]
    rfl

theorem list?_ofValue {α : Type} {read : Doc → Option α} {encode : α → Json} {as : List α}
    (h : ∀ a ∈ as, read (ofValue (encode a)) = some a) :
    list? read (ofValue (.arr (as.map encode))) = some as := by
  rw [ofValue, list?, mapM_ofElements h]

theorem textSet?_ofValue {ts : List String} (h : ts.Pairwise (· < ·)) :
    textSet? (ofValue (Json.texts ts)) = some ts := by
  have hsame := Dict.eq_of_ascending (sortedSet_sorted ts) h fun _ => mem_sortedSet
  rw [textSet?, Json.texts, list?_ofValue fun _ _ => rfl, Option.map_some, hsame]

theorem intIn?_ofValue {low high n : Int} (h : low ≤ n ∧ n ≤ high) :
    intIn? low high (ofValue (.int n)) = some n := by
  rw [ofValue, intIn?, if_pos h]

theorem word?_ofValue {n : Nat} (h : n ≤ Text.maxWord) : word? (ofValue (.int n)) = some n := by
  rw [word?, intIn?_ofValue ⟨Int.natCast_nonneg n, Int.ofNat_le.mpr h⟩]
  rfl

mutual

theorem value?_ofValue : ∀ v : Json, v.Ordered → (ofValue v).value? = some v
  | .null, _ | .bool _, _ | .int _, _ | .double _, _ | .str _, _ => rfl
  | .arr elements, h => by
    rw [ofValue, value?, elementValues?_ofElements elements h]
    rfl
  | .obj members, h => by
    rw [ofValue, value?, memberValues?_ofMembers members h.2, Option.map_some, Json.object,
      Dict.ofList_of_sorted h.1]

theorem elementValues?_ofElements : ∀ vs : List Json, Json.OrderedElements vs →
    elementValues? (ofElements vs) = some vs
  | [], _ => rfl
  | v :: vs, h => by
    rw [ofElements, elementValues?, value?_ofValue v h.1, elementValues?_ofElements vs h.2]
    rfl

theorem memberValues?_ofMembers : ∀ ms : List (String × Json), Json.OrderedMembers ms →
    memberValues? (ofMembers ms) = some ms
  | [], _ => rfl
  | (_, v) :: ms, h => by
    rw [ofMembers, memberValues?, value?_ofValue v h.1, memberValues?_ofMembers ms h.2]
    rfl

end

end Doc

namespace Slots

variable {α : Type} {s : Slots} {name : String} {d : Doc} {a default : α} {read : Doc → Option α}

theorem required_of_get? (hget : s.get? name = some d) (hread : read d = some a) :
    s.required name read = some a := by
  rw [required, hget, Option.bind_some, hread]

theorem defaulted_of_get? (hget : s.get? name = some d) (hread : read d = some a) :
    s.defaulted name default read = some a := by
  rw [defaulted, hget]
  exact hread

end Slots

end ClusterGate
