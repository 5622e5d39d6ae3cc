import ClusterGate.Json.Doc
import ClusterGate.Proofs.Dict
import ClusterGate.Proofs.Json.Same

/-!
# Ordered documents

Whatever is read from a text is ordered at every depth, and so is every value equal to an ordered
one.
-/

namespace ClusterGate

namespace Json

theorem ordered_object {entries : List (String × Json)} (h : OrderedMembers entries) :
    (object entries).Ordered := by
  refine ⟨Dict.sorted_ofList entries, ?_⟩
  rw [orderedMembers_iff] at h ⊢
  exact fun k v hv => h k v (Dict.mem_of_mem_ofList hv)

theorem Ordered.insert {key : String} {value : Json} {members : List (String × Json)}
    (h : (obj members).Ordered) (hvalue : value.Ordered) :
    (obj (Dict.insert key value members)).Ordered := by
  refine ⟨Dict.sorted_insert h.1, orderedMembers_iff.mpr fun k v hv => ?_⟩
  rcases Dict.mem_of_mem_insert hv with heq | hold
  · cases heq
    exact hvalue
  · exact orderedMembers_iff.mp h.2 k v hold

theorem keys_of_sameMembers {as bs : List (String × Json)} (h : sameMembers as bs = true) :
    Dict.keys as = Dict.keys bs := by
  induction as generalizing bs with
  | nil =>
    cases bs with
    | nil => rfl
    | cons b bs => simp [sameMembers] at h
  | cons a as ih =>
    cases bs with
    | nil => simp [sameMembers] at h
    | cons b bs =>
      simp only [sameMembers, Bool.and_eq_true, beq_iff_eq] at h
      have hkeys := ih h.2
      simp only [Dict.keys, List.map_cons] at hkeys ⊢
      rw [h.1.1, hkeys]

mutual

theorem ordered_of_same : ∀ {a b : Json}, a.same b = true → b.Ordered → a.Ordered
  | .arr as, .arr bs, h, hb => by
    rw [same] at h
    exact orderedElements_of_same h hb
  | .obj as, .obj bs, h, hb => by
    rw [same] at h
    refine ⟨?_, orderedMembers_of_same h hb.2⟩
    rw [Dict.sorted_iff_keys, keys_of_sameMembers h]
    exact Dict.sorted_iff_keys.mp hb.1
  | .null, _, _, _ | .bool _, _, _, _ | .int _, _, _, _ | .double _, _, _, _
  | .str _, _, _, _ => trivial
  | .arr _, .null, h, _ | .arr _, .bool _, h, _ | .arr _, .int _, h, _ | .arr _, .double _, h, _
  | .arr _, .str _, h, _ | .arr _, .obj _, h, _ => by simp [same] at h
  | .obj _, .null, h, _ | .obj _, .bool _, h, _ | .obj _, .int _, h, _ | .obj _, .double _, h, _
  | .obj _, .str _, h, _ | .obj _, .arr _, h, _ => by simp [same] at h

theorem orderedElements_of_same : ∀ {as bs : List Json},
    sameElements as bs = true → OrderedElements bs → OrderedElements as
  | [], _, _, _ => trivial
  | _ :: _, [], h, _ => by simp [sameElements] at h
  | a :: as, b :: bs, h, hb => by
    obtain ⟨hv, hrest⟩ := sameElements_cons.mp h
    exact ⟨ordered_of_same hv hb.1, orderedElements_of_same hrest hb.2⟩

theorem orderedMembers_of_same : ∀ {as bs : List (String × Json)},
    sameMembers as bs = true → OrderedMembers bs → OrderedMembers as
  | [], _, _, _ => trivial
  | _ :: _, [], h, _ => by simp [sameMembers] at h
  | (k, a) :: as, (l, b) :: bs, h, hb => by
    simp only [sameMembers, Bool.and_eq_true] at h
    exact ⟨ordered_of_same h.1.2 hb.1, orderedMembers_of_same h.2 hb.2⟩

end

end Json

namespace Doc

mutual

/-- What is read from a text is ordered. -/
theorem ordered_of_value? : ∀ {d : Doc} {v : Json}, d.value? = some v → v.Ordered
  | .null, v, h | .bool _, v, h | .int _, v, h | .double _, v, h | .str _, v, h => by
    obtain rfl := Option.some.inj h
    trivial
  | .unreadable, v, h => by simp [value?] at h
  | .arr elements, v, h => by
    rw [value?] at h
    obtain ⟨vs, hvs, rfl⟩ := Option.map_eq_some_iff.mp h
    exact ordered_of_elementValues? hvs
  | .obj members, v, h => by
    rw [value?] at h
    obtain ⟨vs, hvs, rfl⟩ := Option.map_eq_some_iff.mp h
    exact Json.ordered_object (ordered_of_memberValues? hvs)

theorem ordered_of_elementValues? : ∀ {ds : List Doc} {vs : List Json},
    elementValues? ds = some vs → Json.OrderedElements vs
  | [], vs, h => by
    obtain rfl := Option.some.inj h
    trivial
  | d :: ds, vs, h => by
    simp only [elementValues?, Option.bind_eq_bind, Option.bind_eq_some_iff] at h
    obtain ⟨v, hv, rest, hrest, hvs⟩ := h
    obtain rfl := Option.some.inj hvs
    exact ⟨ordered_of_value? hv, ordered_of_elementValues? hrest⟩

theorem ordered_of_memberValues? : ∀ {ds : List (String × Doc)} {vs : List (String × Json)},
    memberValues? ds = some vs → Json.OrderedMembers vs
  | [], vs, h => by
    obtain rfl := Option.some.inj h
    trivial
  | (k, d) :: ds, vs, h => by
    simp only [memberValues?, Option.bind_eq_bind, Option.bind_eq_some_iff] at h
    obtain ⟨v, hv, rest, hrest, hvs⟩ := h
    obtain rfl := Option.some.inj hvs
    exact ⟨ordered_of_value? hv, ordered_of_memberValues? hrest⟩

end

end Doc

end ClusterGate
