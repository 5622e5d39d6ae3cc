import ClusterGate.Proofs.Json.Fields
import ClusterGate.Proofs.Json.ReadBack
import ClusterGate.Proofs.Text.Utf8
import ClusterGate.Store.Files

/-!
# The content of a record's file

A record whose labels, annotations and specification are in order, with no number but whole ones of 64
bits and no nesting that readers refuse, is read back from the text that is written for it. Main
statement: `decode_textOf`.
-/

namespace ClusterGate

namespace Json

theorem integral_textMap (d : Dict String) : (textMap d).Integral := by
  induction d with
  | nil => trivial
  | cons e d ih => exact ⟨trivial, ih⟩

theorem nesting_textMap (d : Dict String) : (textMap d).nesting = 1 := by
  induction d with
  | nil => rfl
  | cons e d ih =>
    simp only [textMap, nesting, List.map_cons, nestingMembers] at ih ⊢
    omega

theorem orderedMembers_textMap (d : Dict String) :
    OrderedMembers (d.map fun e => (e.1, .str e.2)) := by
  induction d with
  | nil => trivial
  | cons e d ih => exact ⟨trivial, ih⟩

theorem ordered_textMap {d : Dict String} (h : d.Sorted) : (textMap d).Ordered :=
  ⟨List.pairwise_map.mpr h, orderedMembers_textMap d⟩

end Json

namespace Record

/-- The record can be written and read again: its members are in order, as they are in whatever is
read or built up by insertions, its numbers are whole ones, and it nests no deeper than readers go. -/
structure Writable (r : Record) : Prop where
  labels : r.labels.Sorted
  annotations : r.annotations.Sorted
  ordered : r.spec.Ordered
  integral : r.spec.Integral
  shallow : r.spec.nesting < Json.maxDepth

/-- The labels, the annotations and the specification are in order. -/
structure InOrder (r : Record) : Prop where
  labels : r.labels.Sorted
  annotations : r.annotations.Sorted
  ordered : r.spec.Ordered

variable {r : Record}

theorem Writable.inOrder (h : r.Writable) : r.InOrder := ⟨h.labels, h.annotations, h.ordered⟩

theorem get?_fields :
    Dict.get? "labels" (Dict.ofList r.fields) =
        (if r.labels.isEmpty then none else some (Json.textMap r.labels)) ∧
      Dict.get? "annotations" (Dict.ofList r.fields) =
        (if r.annotations.isEmpty then none else some (Json.textMap r.annotations)) ∧
      Dict.get? "spec" (Dict.ofList r.fields) = some r.spec := by
  simp only [Dict.get?_ofList, fields]
  split_ifs <;> exact ⟨rfl, rfl, rfl⟩

theorem Writable.integral_fields (h : r.Writable) : (Json.obj r.fields).Integral := by
  have hspec := h.integral
  have hlabels := Json.integral_textMap r.labels
  have hannotations := Json.integral_textMap r.annotations
  unfold fields
  split_ifs <;> simp [Json.Integral, Json.IntegralMembers, *]

theorem Writable.nesting_fields (h : r.Writable) : (Json.obj r.fields).nesting ≤ Json.maxDepth := by
  have hspec := h.shallow
  have hlabels := Json.nesting_textMap r.labels
  have hannotations := Json.nesting_textMap r.annotations
  have hdepth : 2 ≤ Json.maxDepth := by decide
  unfold fields
  split_ifs <;> simp [Json.nesting, Json.nestingMembers] <;> omega

theorem Writable.ordered_fields (h : r.Writable) : Json.OrderedMembers r.fields := by
  have hspec := h.ordered
  have hlabels := Json.ordered_textMap h.labels
  have hannotations := Json.ordered_textMap h.annotations
  unfold fields
  split_ifs <;> simp [Json.OrderedMembers, Json.Ordered, *]

/-- A field that is left out when it is empty is read as empty. -/
theorem defaulted_textMap {s : Slots} {key : String} {d : Dict String} (h : d.Sorted)
    (hget : s.get? key = (if d.isEmpty then none else some (Json.textMap d)).map Doc.ofValue) :
    s.defaulted key [] Doc.textMap? = some d := by
  rw [Slots.defaulted, hget]
  split_ifs with hempty
  · rw [List.isEmpty_iff.mp hempty]
    rfl
  · exact Doc.textMap?_ofValue h

theorem InOrder.read?_object (h : r.InOrder) {d : Dict Json} (hd : d.Sorted)
    (hkind : d.get? "kind" = some (.str r.kind)) (hname : d.get? "name" = some (.str r.name))
    (hrest : ∀ key ∈ ["labels", "annotations", "spec"],
      d.get? key = Dict.get? key (Dict.ofList r.fields)) :
    read? (Doc.ofValue (.obj d)) = some r := by
  obtain ⟨hlabels, hannotations, hspec⟩ := r.get?_fields
  obtain ⟨s, hslots, hget⟩ :=
    Doc.slots?_ofMembers ["kind", "name", "labels", "annotations", "spec"] hd
  have hk : s.required "kind" Doc.text? = some r.kind := by
    refine Slots.required_of_get? (d := .str r.kind) ?_ rfl
    rw [hget _ (by simp), hkind]
    rfl
  have hn : s.required "name" Doc.text? = some r.name := by
    refine Slots.required_of_get? (d := .str r.name) ?_ rfl
    rw [hget _ (by simp), hname]
    rfl
  have hl : s.defaulted "labels" [] Doc.textMap? = some r.labels := by
    refine defaulted_textMap h.labels ?_
    rw [hget _ (by simp), hrest _ (by simp), hlabels]
  have ha : s.defaulted "annotations" [] Doc.textMap? = some r.annotations := by
    refine defaulted_textMap h.annotations ?_
    rw [hget _ (by simp), hrest _ (by simp), hannotations]
  have hs : s.defaulted "spec" .null Doc.value? = some r.spec := by
    refine Slots.defaulted_of_get? ?_ (Doc.value?_ofValue r.spec h.ordered)
    rw [hget _ (by simp), hrest _ (by simp), hspec]
    rfl
  rw [Doc.ofValue, read?]
  simp only [Option.bind_eq_bind, Option.bind_some, hslots, hk, hn, hl, ha, hs]
  rfl

theorem read?_encode (h : r.InOrder) : read? (Doc.ofValue r.encode) = some r := by
  obtain ⟨hkind, hname⟩ : Dict.get? "kind" (Dict.ofList r.fields) = some (.str r.kind) ∧
      Dict.get? "name" (Dict.ofList r.fields) = some (.str r.name) := by
    simp only [Dict.get?_ofList, fields]
    split_ifs <;> exact ⟨rfl, rfl⟩
  exact h.read?_object (Dict.sorted_ofList _) hkind hname fun _ _ => rfl

end Record

namespace FileStore

theorem ofBytes?_textOf {r : Record} (h : r.Writable) :
    Json.ofBytes? (Text.bytes (textOf r)) = some (Json.object r.fields) := by
  rw [Json.ofBytes?, Text.fromUTF8?_bytes, Option.bind_some, Json.ofText?, textOf,
    Json.readText_pretty h.integral_fields h.nesting_fields, Option.bind_some, Doc.ofValue,
    Doc.value?, Doc.memberValues?_ofMembers _ h.ordered_fields, Option.map_some]

/-- What is written for a record is read as this record. -/
theorem decode_textOf {r : Record} (h : r.Writable) :
    decode r.kind r.name (Text.bytes (textOf r)) = .ok r := by
  have hread : Record.read? (Doc.ofValue (placed r.kind r.name (Json.object r.fields))) = some r := by
    refine h.inOrder.read?_object (Dict.sorted_insert (Dict.sorted_insert (Dict.sorted_ofList _))) ?_ ?_ ?_
    · rw [Dict.get?_insert_of_ne _ _ (by decide), Dict.get?_insert_self]
    · rw [Dict.get?_insert_self]
    · intro key hkey
      have hne : ∀ key ∈ ["labels", "annotations", "spec"], key ≠ "name" ∧ key ≠ "kind" := by
        decide
      rw [Dict.get?_insert_of_ne _ _ (hne key hkey).1, Dict.get?_insert_of_ne _ _ (hne key hkey).2]
  rw [decode, ofBytes?_textOf h, Option.bind_some, hread]

end FileStore

end ClusterGate
