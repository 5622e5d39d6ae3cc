import ClusterGate.Proofs.Sku.SingleFlight
import ClusterGate.Proofs.Sku.Queries

/-!
# Programs that find their tables

A program whose questions are all about regions with a table ends by itself: no other call can hold it
up, and no interrupt can end it early, since tables stay and whoever finds one does not wait. Main
statement: `Traffic.result?_of_ends`.
-/

namespace ClusterGate

namespace Engine

variable {α β : Type} {c c' : RegionCache} {e : Engine α} {f : α → Engine β} {a : α} {k l : Nat}

/-- Told the tables that are there, a program ends with a result after so many moves: one for each
note, two for each question. -/
inductive Ends (c : RegionCache) (result : Except GateError α) : Engine α → Nat → Prop where
  | done : Ends c result (.done result) 0
  | note {n : Note} {e : Engine α} {k : Nat} (rest : Ends c result e k) :
      Ends c result (.note n e) (k + 1)
  | ask {name : String} {table : RegionTable} {next : Except GateError RegionTable → Engine α}
      {k : Nat} (stored : c.stored? name = some table) (rest : Ends c result (next (.ok table)) k) :
      Ends c result (.ask (.region name) next) (k + 2)

theorem Ends.mono {result : Except GateError α} (h : e.Ends c result k)
    (hkept : ∀ region table, c.stored? region = some table → c'.stored? region = some table) :
    e.Ends c' result k := by
  induction h with
  | done => exact .done
  | note _ ih => exact .note ih
  | ask stored _ ih => exact .ask (hkept _ _ stored) ih

theorem Ends.bind {result : Except GateError β} (h : e.Ends c (.ok a) k)
    (hf : (f a).Ends c result l) : (e >>= f).Ends c result (k + l) := by
  induction h with
  | done =>
    rw [Nat.zero_add]
    exact hf
  | note _ ih =>
    rw [Nat.add_right_comm]
    exact .note ih
  | ask stored _ ih =>
    rw [Nat.add_right_comm]
    exact .ask stored ih

theorem pure_ends : (pure a : Engine α).Ends c (.ok a) 0 := .done

theorem require_ends {detail : String} : (require true detail).Ends c (.ok ()) 0 := .done

theorem notes_ends (ns : List Note) : (notes ns).Ends c (.ok ()) ns.length := by
  induction ns with
  | nil => exact .done
  | cons n rest ih => exact .note ih

end Engine

/-- A call ends with a result after so many more moves. -/
inductive Progress.Ends {α : Type} (c : RegionCache) (result : Except GateError α) :
    Progress α → Nat → Prop where
  | running {e : Engine α} {k : Nat} (rest : e.Ends c result k) : Ends c result (.running e) k
  | checking {name : String} {table : RegionTable}
      {next : Except GateError RegionTable → Engine α} {k : Nat}
      (stored : c.stored? name = some table) (rest : (next (.ok table)).Ends c result k) :
      Ends c result (.looking name .checking next) (k + 1)

theorem Progress.Ends.mono {α : Type} {c c' : RegionCache} {result : Except GateError α}
    {p : Progress α} {k : Nat} (h : p.Ends c result k)
    (hkept : ∀ region table, c.stored? region = some table → c'.stored? region = some table) :
    p.Ends c' result k := by
  cases h with
  | running rest => exact .running (rest.mono hkept)
  | checking stored rest => exact .checking (hkept _ _ stored) (rest.mono hkept)

namespace Traffic

variable {α : Type} {s : Traffic α} {id : LookupId} {p : Progress α} {k : Nat}
  {result : Except GateError α}

/-- Each move of its own brings a call nearer to its end. -/
theorem ends_step (h : p.Ends s.cache result k) (here : s.progress? id = some p)
    (interrupt : Option Interrupt) (answer : Option (Except StorageError (List Sku))) :
    ∃ p', (s.step (.go id interrupt answer)).progress? id = some p' ∧
      p'.Ends s.cache result (k - 1) := by
  cases h with
  | running rest =>
    cases rest with
    | done =>
      refine ⟨_, ?_, .running .done⟩
      simp only [step, here]
    | note rest =>
      refine ⟨_, ?_, .running rest⟩
      simp only [step, here]
      rw [progress?_resume, if_pos rfl]
      exact congrArg _ here
    | ask stored rest =>
      refine ⟨_, ?_, .checking stored rest⟩
      simp only [step, here]
      rw [progress?_resume, if_pos rfl, here]
      rfl
  | checking stored rest => exact ⟨_, (step_of_stored here stored interrupt answer).1, .running rest⟩

theorem ends_run (horderly : Orderly s) (h : p.Ends s.cache result k)
    (here : s.progress? id = some p) (moves : List (Move α)) :
    ∃ p', (s.run moves).progress? id = some p' ∧
      p'.Ends (s.run moves).cache result (k - moves.countP (Move.isOf id)) := by
  induction moves generalizing s p k with
  | nil => exact ⟨p, here, h⟩
  | cons m rest ih =>
    have hnext := horderly.step (step_step s m)
    have hkept : ∀ region table, s.cache.stored? region = some table →
        (s.step m).cache.stored? region = some table :=
      fun _ _ => horderly.stored_step (step_step s m)
    rw [List.countP_cons]
    cases hown : m.isOf id with
    | false => exact ih hnext (h.mono hkept) (progress?_of_step (step_step s m) hown here)
    | true =>
      match m with
      | .go i interrupt answer =>
        obtain rfl : i = id := beq_iff_eq.mp hown
        obtain ⟨p', here', h'⟩ := ends_step h here interrupt answer
        rw [if_pos rfl, Nat.add_comm, ← Nat.sub_sub]
        exact ih hnext (h'.mono hkept) here'

/-- A call that begins when all its tables are there ends with the moves that it takes, and with no
other result, whatever happens meanwhile. -/
theorem result?_of_ends {program : Engine α} (horderly : Orderly s)
    (h : program.Ends s.cache result k) (moves : List (Move α))
    (henough : k ≤ moves.countP (Move.isOf s.calls.length)) :
    ((s.step (.enter program)).run moves).result? s.calls.length = some result := by
  have hentered : (s.step (.enter program)).progress? s.calls.length =
      some (.running program) := by
    rw [step, progress?_enter, if_pos rfl]
  have hnext := horderly.step (step_step s (.enter program))
  obtain ⟨p, here, hends⟩ := ends_run hnext (.running h) hentered moves
  rw [Nat.sub_eq_zero_of_le henough] at hends
  cases hends with
  | running rest =>
    cases rest with
    | done =>
      rw [result?, here]
      rfl

end Traffic

/-! ### Queries -/

namespace Sku

variable {c : RegionCache} {table : RegionTable} {region instanceType name : String} {sku : Sku}

theorem resolve_ends (hstored : c.stored? region = some table)
    (h : Listed table region instanceType sku) :
    (resolve region instanceType).Ends c (.ok sku) 2 := by
  have hverdict : verdict region instanceType (.ok table) = .ok sku := by
    rw [verdict, h.2.2]
  rw [resolve_eq h.1 h.2.1]
  refine .ask hstored ?_
  rw [hverdict]
  exact .done

theorem hasCapability_ends (hname : name ≠ "") (hstored : c.stored? region = some table)
    (h : Listed table region instanceType sku) :
    (hasCapability region instanceType name).Ends c (.ok (sku.supports name)) 2 := by
  have hcapability : (capabilityOf region instanceType name).Ends c (.ok (sku.capability? name)) 2 := by
    rw [capabilityOf, if_neg hname]
    exact (resolve_ends hstored h).bind (f := fun sku => pure (sku.capability? name)) Engine.pure_ends
  refine hcapability.bind (l := 0) ?_
  unfold supports
  cases sku.capability? name with
  | some value => exact .done
  | none => exact .done

end Sku

end ClusterGate
