import ClusterGate.Catalog.Memo
import ClusterGate.Proofs.Json.Fields

/-!
# Reading the components of a release

What one step of a reading does, and what the components of a record are.
Main statements: `ComponentMemo.transition_of_step`, `Components.mapOf_ofRecord`.
-/

namespace ClusterGate

/-! ### One step of a reading -/

namespace ComponentMemo

variable {name key : String} {interrupt : Option Interrupt}
  {answer : Option (Except StorageError (Option Record))} {memo memo' : ComponentMemo}
  {stage stage' : Reading} {c : Components}

/-- The ways of a step. -/
inductive Transition (name : String) (interrupt : Option Interrupt)
    (answer : Option (Except StorageError (Option Record))) (memo : ComponentMemo) :
    Reading → ComponentMemo → Reading → Prop where
  | found {c : Components} (remembered : memo.get? name = some c) :
      Transition name interrupt answer memo .checking memo (.done (.ok c))
  | missed (missing : memo.get? name = none) :
      Transition name interrupt answer memo .checking memo (.reading false)
  | interrupted {called : Bool} {i : Interrupt} (fired : interrupt = some i) :
      Transition name interrupt answer memo (.reading called) memo
        (.done (.error (.ofInterrupt readOperation i)))
  | called (free : interrupt = none) :
      Transition name interrupt answer memo (.reading false) memo (.reading true)
  | refused {a : Except StorageError (Option Record)} {e : GateError} (free : interrupt = none)
      (answered : answer = some a) (unusable : ofAnswer name a = .error e) :
      Transition name interrupt answer memo (.reading true) memo (.done (.error e))
  | decoded {r : Record} {c : Components} (free : interrupt = none)
      (answered : answer = some (.ok (some r))) (usable : Components.ofRecord name r = .ok c) :
      Transition name interrupt answer memo (.reading true) memo (.decoded c)
  | kept {c : Components} :
      Transition name interrupt answer memo (.decoded c) (memo.remember name c) (.done (.ok c))

theorem ofAnswer_ok {a : Except StorageError (Option Record)} (h : ofAnswer name a = .ok c) :
    ∃ r, a = .ok (some r) ∧ Components.ofRecord name r = .ok c := by
  match a, h with
  | .ok (some r), h => exact ⟨r, rfl, h⟩

theorem transition_of_step (h : memo.step name interrupt answer stage = some (memo', stage')) :
    Transition name interrupt answer memo stage memo' stage' := by
  cases stage with
  | checking =>
    rw [step] at h
    split at h
    next c hget =>
      cases h
      exact .found hget
    next hget =>
      cases h
      exact .missed hget
  | reading called =>
    cases hi : interrupt with
    | some i =>
      simp only [step, guarded, hi] at h
      cases h
      exact .interrupted rfl
    | none =>
      cases called with
      | false =>
        simp only [step, guarded, hi] at h
        cases h
        exact .called rfl
      | true =>
        cases ha : answer with
        | none =>
          simp only [step, guarded, hi, ha] at h
          cases h
        | some a =>
          simp only [step, guarded, hi, ha, if_pos, Option.map_some] at h
          split at h
          next c hok =>
            cases h
            obtain ⟨r, rfl, hrecord⟩ := ofAnswer_ok hok
            exact .decoded rfl rfl hrecord
          next e herror =>
            cases h
            exact .refused rfl rfl herror
  | decoded c =>
    cases h
    exact .kept
  | done result => cases h

theorem get?_remember :
    (memo.remember name c).get? key =
      if key = name then some ((memo.get? name).getD c) else memo.get? key := by
  rw [remember]
  split
  next c' hget =>
    split
    next hkey => rw [hkey, hget, Option.getD_some]
    next => rfl
  next hget =>
    split
    next hkey => rw [hkey, Dict.get?_insert_self, hget, Option.getD_none]
    next hkey => exact Dict.get?_insert_of_ne c memo hkey

end ComponentMemo

/-! ### The map of a record -/

namespace Components

variable {name key : String} {r : Record} {c : Components}

/-- The names and versions in a release specification, in its order. -/
def items? (spec : Json) : Option (List (String × String)) := do
  let s ← (Doc.ofValue spec).slots? ["components"]
  s.defaulted "components" [] (Doc.list? readOne?)

/-- The components are the map of a record: of several items with one name the last one counts, and
without a specification, or without items in it, the map is empty. -/
structure MapOf (r : Record) (c : Components) : Prop where
  unspecified : r.spec = .null → c = []
  bare : ∀ members, r.spec = .obj members → Dict.get? "components" members = none → c = []
  sorted : c.Sorted
  items : r.spec ≠ .null → ∃ items, items? r.spec = some items ∧
    ∀ name, c.get? name = (items.reverse.find? fun item => item.1 == name).map Prod.snd

theorem read?_ofValue (spec : Json) :
    read? (Doc.ofValue spec) = (items? spec).map Dict.ofList := by
  rw [read?, items?]
  cases (Doc.ofValue spec).slots? ["components"] with
  | none => rfl
  | some s =>
    change (s.defaulted "components" [] (Doc.list? readOne?)).bind _ = Option.map _ (_)
    rw [Option.map_eq_bind]
    rfl

theorem ofRecord_of_spec (h : r.spec ≠ .null) (hok : ofRecord key r = .ok c) :
    ∃ items, items? r.spec = some items ∧ c = Dict.ofList items := by
  rw [ofRecord] at hok
  split at hok
  next hnull => exact absurd hnull h
  next =>
    rw [read?_ofValue] at hok
    split at hok
    next components hread =>
      cases hok
      obtain ⟨items, hitems, rfl⟩ := Option.map_eq_some_iff.mp hread
      exact ⟨items, hitems, rfl⟩
    next => cases hok

theorem items?_bare {members : Dict Json} (h : Dict.get? "components" members = none)
    {items : List (String × String)} (hitems : items? (.obj members) = some items) : items = [] := by
  obtain ⟨s, hslots, hitems⟩ := Option.bind_eq_some_iff.mp hitems
  have habsent : s.get? "components" = none := by
    rw [Doc.get?_of_slots?_obj hslots List.mem_cons_self, Doc.get?_ofMembers, h]
    rfl
  rw [Slots.defaulted, habsent] at hitems
  exact (Option.some.inj hitems).symm

theorem mapOf_ofRecord (h : ofRecord key r = .ok c) : MapOf r c := by
  by_cases hnull : r.spec = .null
  · have hempty : c = [] := by
      rw [ofRecord, hnull] at h
      exact (Except.ok.inj h).symm
    refine ⟨fun _ => hempty, fun _ _ _ => hempty, ?_, fun hspec => absurd hnull hspec⟩
    rw [hempty]
    exact List.Pairwise.nil
  · obtain ⟨items, hitems, rfl⟩ := ofRecord_of_spec hnull h
    refine ⟨fun hspec => absurd hspec hnull, ?_, Dict.sorted_ofList items,
      fun _ => ⟨items, hitems, fun _ => Dict.get?_ofList items⟩⟩
    intro members hspec hbare
    rw [hspec] at hitems
    rw [items?_bare hbare hitems]
    rfl

end Components

end ClusterGate
