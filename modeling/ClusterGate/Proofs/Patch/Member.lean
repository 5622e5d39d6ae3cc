import ClusterGate.Proofs.Patch.ByToken
import ClusterGate.Proofs.Patch.PutBack

/-!
# Adding a member

To add a member to the object that keys lead to is to put it there and to leave every other place of
the document alone. Main statements: `Json.performOn?_add`, `Json.follow?_withMember`,
`Json.at?_withMember`.
-/

namespace ClusterGate

namespace Pointer

/-- One step further down, a pointer has one token more. -/
theorem tokens?_push {path : String} {tokens : List String} (h : path = ofTokens tokens)
    (token : String) : tokens? (push path token) = some (tokens ++ [token]) := by
  subst h
  induction tokens with
  | nil => exact tokens?_push_root token
  | cons first tokens ih =>
    rw [ofTokens_cons, push_append]
    exact tokens?_push_append first ih

end Pointer

namespace Json

variable {key first : String} {keys tokens : List String} {v w value : Json}
  {members : List (String × Json)}

/-- The document with a member in the object that keys lead to. -/
def withMember : List String → String → Json → Json → Json
  | [], key, .obj members, value => .obj (Dict.insert key value members)
  | first :: keys, key, .obj members, value => match Dict.get? first members with
    | some v => .obj (Dict.insert first (v.withMember keys key value) members)
    | none => .obj members
  | _, _, v, _ => v

/-- Induction along keys that lead to an object. -/
theorem object_induction {P : List String → Json → Prop}
    (here : ∀ members, P [] (.obj members))
    (below : ∀ first keys members v, Dict.get? first members = some v → P keys v →
      P (first :: keys) (.obj members))
    (h : v.IsObjectAt keys) : P keys v := by
  refine objects_induction (P := fun keys v _ => P keys v) (fun members _ => here members) ?_ h h
  intro first keys members _ v _ hv _ ih
  exact below first keys members v hv ih

theorem withMember_below (keys : List String) (key : String) (value : Json)
    (hv : Dict.get? first members = some v) :
    (obj members).withMember (first :: keys) key value =
      .obj (Dict.insert first (v.withMember keys key value) members) := by
  rw [withMember, hv]

theorem follow?_withMember (h : v.IsObjectAt keys) :
    (v.withMember keys key value).follow? (keys ++ [key]) = some value := by
  refine object_induction
    (P := fun keys v => (v.withMember keys key value).follow? (keys ++ [key]) = some value) ?_ ?_ h
  · intro members
    rw [withMember, List.nil_append, follow?_obj, Dict.get?_insert_self]
    rfl
  · intro first keys members v hv ih
    rw [withMember_below keys key value hv, List.cons_append, follow?_obj, Dict.get?_insert_self]
    exact ih

/-- Nothing else changes: a place that neither contains the member nor lies inside it has the value
that it had. -/
theorem at?_withMember (h : v.IsObjectAt keys) (houter : ¬tokens <+: keys ++ [key])
    (hinner : ¬keys ++ [key] <+: tokens) :
    (v.withMember keys key value).at? tokens = v.at? tokens := by
  refine object_induction (P := fun keys v => ∀ tokens, ¬tokens <+: keys ++ [key] →
    ¬keys ++ [key] <+: tokens → (v.withMember keys key value).at? tokens = v.at? tokens)
    ?_ ?_ h tokens houter hinner
  · intro members tokens houter hinner
    cases tokens with
    | nil => exact absurd List.nil_prefix houter
    | cons token rest =>
      have hne : token ≠ key := by
        rintro rfl
        exact hinner (List.cons_prefix_cons.mpr ⟨rfl, List.nil_prefix⟩)
      rw [withMember, at?, at?, step?, step?, Dict.get?_insert_of_ne value members hne]
  · intro first keys members v hv ih tokens houter hinner
    rw [withMember_below keys key value hv]
    cases tokens with
    | nil => exact absurd List.nil_prefix houter
    | cons token rest =>
      by_cases heq : token = first
      · subst heq
        rw [List.cons_append, List.cons_prefix_cons] at houter hinner
        rw [at?, at?, step?, step?, Dict.get?_insert_self, hv]
        exact ih rest (fun hprefix => houter ⟨rfl, hprefix⟩) fun hprefix => hinner ⟨rfl, hprefix⟩
      · rw [at?, at?, step?, step?, Dict.get?_insert_of_ne _ members heq]

theorem ordered_withMember (h : v.IsObjectAt keys) (hv : v.Ordered) (hvalue : value.Ordered) :
    (v.withMember keys key value).Ordered := by
  refine object_induction (P := fun keys v => v.Ordered → (v.withMember keys key value).Ordered)
    ?_ ?_ h hv
  · intro members hmembers
    exact hmembers.insert hvalue
  · intro first keys members v hget ih hmembers
    rw [withMember_below keys key value hget]
    exact hmembers.insert (ih (hmembers.get? hget))

theorem descend?_addAt? (h : v.IsObjectAt keys) (whole : Json → Option Json) :
    descend? (fun token => addAt? token value) whole (keys ++ [key]) v =
      some (v.withMember keys key value) := by
  refine object_induction (P := fun keys v =>
    descend? (fun token => addAt? token value) whole (keys ++ [key]) v =
      some (v.withMember keys key value)) ?_ ?_ h
  · intro members
    rfl
  · intro first keys members v hv ih
    have hstep : descend? (fun token => addAt? token value) whole (first :: (keys ++ [key])) =
        changeAt? first (descend? (fun token => addAt? token value) whole (keys ++ [key])) := by
      cases keys <;> rfl
    rw [List.cons_append, hstep, withMember_below keys key value hv]
    simp only [changeAt?, hv, Option.bind_eq_bind, Option.bind_some, ih, Option.pure_def]

/-- An addition below keys that lead to an object succeeds and puts the member there. -/
theorem performOn?_add (h : v.IsObjectAt keys) (key : String) (value : Json) :
    (Patch.Operation.add (Pointer.push (Pointer.ofTokens keys) key) value).performOn? v =
      some (v.withMember keys key value) := by
  simp only [Patch.Operation.performOn?, Pointer.tokens?_push rfl key, Option.bind_eq_bind,
    Option.bind_some]
  exact descend?_addAt? h fun _ => some value

end Json

end ClusterGate
