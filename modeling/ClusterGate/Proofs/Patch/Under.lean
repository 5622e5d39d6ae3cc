import ClusterGate.Patch.Apply
import ClusterGate.Proofs.Dict
import ClusterGate.Proofs.Json.Pointer
import ClusterGate.Proofs.Text.Numeral

/-!
# Operations one step further down

The operations on a part of a document are the operations on the part alone, moved under its token.
Applied to the document they change the part as they change it alone (`performOn?_under`).
-/

namespace ClusterGate

namespace Json

theorem index?_toString (n : Nat) : index? (toString n) = some n := by
  unfold index?
  rw [Text.toList_toString]
  split
  · rename_i hzero
    have hvalue := Text.digitsValue_toDigits n
    rw [hzero] at hvalue
    rw [← hvalue]
    rfl
  · rename_i hne
    have hpos : 0 < n := by
      refine Nat.pos_of_ne_zero fun h => hne ?_
      rw [h]
      exact Nat.toDigits_zero 10
    rw [if_pos ⟨Nat.toDigits_ne_nil, Text.toDigits_all_isDigit n, Text.head?_toDigits_ne_zero hpos⟩,
      Text.digitsValue_toDigits]

/-- What stands around the value under a token: a change of the value changes nothing else. -/
def IsAround (token : String) (around : Json → Json) : Prop :=
  ∀ change v, changeAt? token change (around v) = (change v).map around

theorem isAround_member {front rest : List (String × Json)} {key : String} {v : Json}
    (h : Dict.Sorted (front ++ (key, v) :: rest)) :
    IsAround key fun v => .obj (front ++ (key, v) :: rest) := by
  intro change w
  have hw : Dict.Sorted (front ++ (key, w) :: rest) := h.replace
  simp only [changeAt?, Dict.get?_append_cons hw]
  cases hc : change w <;> simp [hc, Dict.insert_append_cons hw]

theorem isAround_element (front rest : List Json) :
    IsAround (toString front.length) fun v => .arr (front ++ v :: rest) := by
  intro change w
  simp only [changeAt?, index?_toString]
  cases hc : change w <;> simp [hc]

end Json

namespace Patch

namespace Operation

def under (above : String) : Operation → Operation
  | .add path value => .add (above ++ path) value
  | .replace path value => .replace (above ++ path) value
  | .remove path => .remove (above ++ path)

theorem path_under (above : String) (op : Operation) : (op.under above).path = above ++ op.path := by
  cases op <;> rfl

/-- The operation asks nothing of what holds the whole value: it replaces the value or acts on
something inside. -/
def IsInner : Operation → Prop
  | .replace path _ => ∃ tokens, Pointer.tokens? path = some tokens
  | .add path _ | .remove path => ∃ token tokens, Pointer.tokens? path = some (token :: tokens)

theorem IsInner.under {op : Operation} (h : op.IsInner) (token : String) :
    (op.under (Pointer.push "" token)).IsInner := by
  cases op with
  | replace path value =>
    obtain ⟨tokens, ht⟩ := h
    exact ⟨_, Pointer.tokens?_push_append token ht⟩
  | add path value =>
    obtain ⟨first, tokens, ht⟩ := h
    exact ⟨_, _, Pointer.tokens?_push_append token ht⟩
  | remove path =>
    obtain ⟨first, tokens, ht⟩ := h
    exact ⟨_, _, Pointer.tokens?_push_append token ht⟩

theorem performOn?_under {op : Operation} (h : op.IsInner) (token : String) (doc : Json) :
    (op.under (Pointer.push "" token)).performOn? doc = Json.changeAt? token op.performOn? doc := by
  cases op with
  | replace path value =>
    obtain ⟨tokens, ht⟩ := h
    have hu := Pointer.tokens?_push_append token ht
    have hop : (replace path value).performOn? =
        Json.descend? (fun token => Json.changeAt? token fun _ => some value)
          (fun _ => some value) tokens := by
      funext v
      simp [performOn?, ht]
    rw [hop]
    cases tokens <;> simp [performOn?, Operation.under, hu, Json.descend?]
  | add path value =>
    obtain ⟨first, tokens, ht⟩ := h
    have hu := Pointer.tokens?_push_append token ht
    have hop : (add path value).performOn? =
        Json.descend? (fun token => Json.addAt? token value) (fun _ => some value)
          (first :: tokens) := by
      funext v
      simp [performOn?, ht]
    rw [hop]
    simp [performOn?, Operation.under, hu, Json.descend?]
  | remove path =>
    obtain ⟨first, tokens, ht⟩ := h
    have hu := Pointer.tokens?_push_append token ht
    have hop : (remove path).performOn? =
        Json.descend? Json.removeAt? (fun _ => none) (first :: tokens) := by
      funext v
      simp [performOn?, ht]
    rw [hop]
    simp [performOn?, Operation.under, hu, Json.descend?]

end Operation

theorem performOn?_nil (doc : Json) : performOn? [] doc = some doc := rfl

theorem performOn?_cons (op : Operation) (ops : List Operation) (doc : Json) :
    performOn? (op :: ops) doc = (op.performOn? doc).bind (performOn? ops) := rfl

theorem performOn?_append (first second : List Operation) (doc : Json) :
    performOn? (first ++ second) doc = (performOn? first doc).bind (performOn? second) := by
  simp [performOn?, List.foldlM_append]
  rfl

/-- A patch of a part, moved under the token of the part, patches the part inside the document. -/
theorem performOn?_map_under {token : String} {around : Json → Json}
    (haround : Json.IsAround token around) {ops : List Operation}
    (hops : ∀ op ∈ ops, op.IsInner) (v : Json) :
    performOn? (ops.map (·.under (Pointer.push "" token))) (around v) =
      (performOn? ops v).map around := by
  induction ops generalizing v with
  | nil => rfl
  | cons op ops ih =>
    have hop := hops op List.mem_cons_self
    have hrest := fun o ho => hops o (List.mem_cons_of_mem _ ho)
    rw [List.map_cons, performOn?_cons, Operation.performOn?_under hop, haround, performOn?_cons]
    cases hv : op.performOn? v with
    | none => rfl
    | some w => exact ih hrest w

end Patch

end ClusterGate
