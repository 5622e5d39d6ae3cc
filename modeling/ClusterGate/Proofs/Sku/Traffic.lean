import ClusterGate.Engine
import ClusterGate.Proofs.Sku.RegionCache

/-!
# Many calls on one region cache

Any number of calls run their programs on one cache. In each move a new call enters or one call goes
on by a single step, under whatever interrupt and with whatever answer of the inventory the move
brings. So a list of moves is an interleaving, and no interleaving is left out. What the inventory and
the tables see is kept as a history.

Main statement: `Step.aside_or_looked`, what one move does to the cache and to where the calls stand.
-/

namespace ClusterGate

/-- The stage of a lookup that is not at its end. -/
def Lookup.pending? : Lookup → Option Lookup
  | .done _ => none
  | stage => some stage

/-- What the inventory or a table sees of a lookup. -/
inductive Occurrence where
  | called (region : String)
  | arrived (region : String) (listing : List Sku)
  | stored (region : String) (table : RegionTable)
deriving DecidableEq

/-- What is seen when a lookup goes from one stage to the next. -/
def Occurrence.between (region : String) : Lookup → Lookup → List Occurrence
  | .fetching false, .fetching true => [.called region]
  | .fetching true, .fetched listing => [.arrived region listing]
  | .fetched _, .done (.ok table) => [.stored region table]
  | _, _ => []

/-- Where a call stands: in its program, or in the lookup of a region that its program asks for. -/
inductive Progress (α : Type) where
  | running (program : Engine α)
  | looking (region : String) (stage : Lookup) (next : Except GateError RegionTable → Engine α)

/-- A lookup goes on, or its result is given to the program. -/
def Progress.after {α : Type} (region : String) (next : Except GateError RegionTable → Engine α) :
    Lookup → Progress α
  | .done result => .running (next result)
  | stage => .looking region stage next

/-- The stage of the lookup of a region, if a call is in one. -/
def Progress.stage? {α : Type} (region : String) : Progress α → Option Lookup
  | .running _ => none
  | .looking name stage _ => if name = region then some stage else none

theorem Progress.stage?_after {α : Type} {name : String} {stage : Lookup}
    {next : Except GateError RegionTable → Engine α} {region : String} :
    (Progress.after name next stage).stage? region =
      if name = region then stage.pending? else none := by
  cases stage with
  | done => rw [after, Progress.stage?, Lookup.pending?, ite_self]
  | _ => rfl

def Progress.result? {α : Type} : Progress α → Option (Except GateError α)
  | .running (.done result) => some result
  | _ => none

structure Call (α : Type) where
  program : Engine α
  progress : Progress α

/-- The cache, all calls made so far, and what was seen and noted, oldest first. The number of a call
is its place. -/
structure Traffic (α : Type) where
  cache : RegionCache := {}
  ledger : Ledger := {}
  calls : List (Call α) := []
  history : List Occurrence := []

/-- A call begins, or a call goes on by one step. -/
inductive Move (α : Type) where
  | enter (program : Engine α)
  | go (id : LookupId) (interrupt : Option Interrupt)
      (answer : Option (Except StorageError (List Sku)))

namespace Traffic

variable {α : Type}

def progress? (s : Traffic α) (id : LookupId) : Option (Progress α) :=
  s.calls[id]?.map Call.progress

def program? (s : Traffic α) (id : LookupId) : Option (Engine α) := s.calls[id]?.map Call.program

def stage? (s : Traffic α) (region : String) (id : LookupId) : Option Lookup :=
  (s.progress? id).bind (Progress.stage? region)

def result? (s : Traffic α) (id : LookupId) : Option (Except GateError α) :=
  (s.progress? id).bind Progress.result?

/-- The same traffic with a call further on. -/
def resume (s : Traffic α) (id : LookupId) (p : Progress α) : Traffic α :=
  { s with calls := s.calls.modify id fun call => { call with progress := p } }

/-- One move. A call whose program is done, or asks for something else than a region, does not go on,
nor does one whose lookup has to wait. -/
def step (s : Traffic α) : Move α → Traffic α
  | .enter program => { s with calls := s.calls ++ [⟨program, .running program⟩] }
  | .go id interrupt answer => match s.progress? id with
    | some (.running (.note n next)) =>
      { s with ledger := s.ledger.note n }.resume id (.running next)
    | some (.running (.ask (.region name) next)) => s.resume id (.looking name .checking next)
    | some (.looking name stage next) =>
      match s.cache.step name id interrupt answer stage with
      | some (cache, stage', notes) =>
        { s with
          cache := cache
          ledger := s.ledger.notes notes
          history := s.history ++ Occurrence.between name stage stage' }.resume id
            (Progress.after name next stage')
      | none => s
    | _ => s

def run (s : Traffic α) (moves : List (Move α)) : Traffic α := moves.foldl step s

/-- What has become of nothing after several moves. -/
def after (moves : List (Move α)) : Traffic α := ({} : Traffic α).run moves

/-! ### What one move does -/

/-- The ways of a move. -/
inductive Step : Traffic α → Move α → Traffic α → Prop where
  | idle {s : Traffic α} {m : Move α} : Step s m s
  | enter {s : Traffic α} (program : Engine α) :
      Step s (.enter program) { s with calls := s.calls ++ [⟨program, .running program⟩] }
  | note {s : Traffic α} {id : LookupId} {interrupt : Option Interrupt}
      {answer : Option (Except StorageError (List Sku))} {n : Note} {next : Engine α}
      (here : s.progress? id = some (.running (.note n next))) :
      Step s (.go id interrupt answer)
        ({ s with ledger := s.ledger.note n }.resume id (.running next))
  | ask {s : Traffic α} {id : LookupId} {interrupt : Option Interrupt}
      {answer : Option (Except StorageError (List Sku))} {name : String}
      {next : Except GateError RegionTable → Engine α}
      (here : s.progress? id = some (.running (.ask (.region name) next))) :
      Step s (.go id interrupt answer) (s.resume id (.looking name .checking next))
  | look {s : Traffic α} {id : LookupId} {interrupt : Option Interrupt}
      {answer : Option (Except StorageError (List Sku))} {name : String} {stage stage' : Lookup}
      {next : Except GateError RegionTable → Engine α} {cache : RegionCache} {notes : List Note}
      (here : s.progress? id = some (.looking name stage next))
      (stepped : s.cache.step name id interrupt answer stage = some (cache, stage', notes)) :
      Step s (.go id interrupt answer)
        ({ s with
          cache := cache
          ledger := s.ledger.notes notes
          history := s.history ++ Occurrence.between name stage stage' }.resume id
            (Progress.after name next stage'))

theorem step_step (s : Traffic α) (m : Move α) : Step s m (s.step m) := by
  cases m with
  | enter program => exact .enter program
  | go id interrupt answer =>
    simp only [step]
    split
    next n next here => exact .note here
    next name next here => exact .ask here
    next name stage next here =>
      split
      next cache stage' notes hstep => exact .look here hstep
      next => exact .idle
    next => exact .idle

/-! ### Where the calls stand after a move -/

variable {s s' : Traffic α} {m : Move α} {id i : LookupId} {region name : String}
  {stage stage' : Lookup} {next : Except GateError RegionTable → Engine α} {notes : List Note}

theorem progress?_resume (p : Progress α) :
    (s.resume id p).progress? i =
      if i = id then (s.progress? id).map fun _ => p else s.progress? i := by
  unfold progress? resume
  rw [List.getElem?_modify]
  by_cases h : i = id
  · subst h
    cases s.calls[i]? <;> simp
  · cases s.calls[i]? <;> simp [h, Ne.symm h]

theorem progress?_enter (program : Engine α) :
    ({ s with calls := s.calls ++ [⟨program, .running program⟩] } : Traffic α).progress? i =
      if i = s.calls.length then some (.running program) else s.progress? i := by
  unfold progress?
  rcases Nat.lt_trichotomy i s.calls.length with hlt | heq | hgt
  · rw [List.getElem?_append_left hlt, if_neg (Nat.ne_of_lt hlt)]
  · rw [if_pos heq, heq, List.getElem?_concat_length]
    rfl
  · rw [if_neg (Nat.ne_of_gt hgt), List.getElem?_eq_none (Nat.le_of_lt hgt),
      List.getElem?_eq_none (by simpa using Nat.succ_le_of_lt hgt)]

theorem progress?_of_length_le (h : s.calls.length ≤ i) : s.progress? i = none := by
  rw [progress?, List.getElem?_eq_none h]
  rfl

theorem stage?_enter (program : Engine α) :
    ({ s with calls := s.calls ++ [⟨program, .running program⟩] } : Traffic α).stage? region i =
      s.stage? region i := by
  rw [stage?, progress?_enter, stage?]
  split
  next h =>
    rw [progress?_of_length_le (Nat.le_of_eq h.symm)]
    rfl
  next => rfl

/-- Where the calls stand in their lookups depends on the calls alone. -/
theorem stage?_of_resume {p q : Progress α} (here : s.progress? id = some p)
    (hcalls : s'.calls = (s.resume id q).calls) :
    s'.stage? region i = if i = id then q.stage? region else s.stage? region i := by
  have hprogress : s'.progress? i = (s.resume id q).progress? i := by
    rw [progress?, progress?, hcalls]
  rw [stage?, hprogress, progress?_resume, here, stage?]
  split <;> rfl

theorem stage?_of_looking (here : s.progress? id = some (.looking name stage next)) :
    s.stage? name id = some stage := by
  rw [stage?, here]
  exact if_pos rfl

theorem stage?_of_looking_other (here : s.progress? id = some (.looking name stage next))
    (h : region ≠ name) : s.stage? region id = none := by
  rw [stage?, here]
  exact if_neg (Ne.symm h)

/-- No lookup goes on; one may begin. -/
structure Aside (s s' : Traffic α) : Prop where
  cache : s'.cache = s.cache
  history : s'.history = s.history
  places : ∀ region i, s'.stage? region i = s.stage? region i ∨
    s.stage? region i = none ∧ s'.stage? region i = some .checking

/-- One lookup goes on by one step, and no other one does. -/
structure Looked (s s' : Traffic α) (name : String) (id : LookupId) (stage stage' : Lookup)
    (notes : List Note) : Prop where
  transition : RegionCache.Transition name id s.cache stage s'.cache stage' notes
  history : s'.history = s.history ++ Occurrence.between name stage stage'
  before : s.stage? name id = some stage
  after : s'.stage? name id = stage'.pending?
  others : ∀ region i, ¬(region = name ∧ i = id) → s'.stage? region i = s.stage? region i

theorem Looked.stage?_of_region_ne (hlooked : Looked s s' name id stage stage' notes)
    (h : region ≠ name) : s'.stage? region i = s.stage? region i :=
  hlooked.others region i fun hboth => h hboth.1

theorem Looked.stage?_of_id_ne (hlooked : Looked s s' name id stage stage' notes) (h : i ≠ id) :
    s'.stage? region i = s.stage? region i :=
  hlooked.others region i fun hboth => h hboth.2

theorem places_of_resume {p q : Progress α} (here : s.progress? id = some p)
    (hcalls : s'.calls = (s.resume id q).calls)
    (hplaces : q.stage? region = p.stage? region ∨
      p.stage? region = none ∧ q.stage? region = some .checking) :
    s'.stage? region i = s.stage? region i ∨
      s.stage? region i = none ∧ s'.stage? region i = some .checking := by
  rw [stage?_of_resume here hcalls]
  split
  next hi =>
    rw [hi, stage?, here]
    exact hplaces
  next => exact Or.inl rfl

theorem pending_of_resume (here : s.progress? id = some (.looking name stage next))
    (hcalls : s'.calls = (s.resume id (Progress.after name next stage')).calls) :
    s'.stage? name id = stage'.pending? := by
  rw [stage?_of_resume here hcalls, if_pos rfl, Progress.stage?_after, if_pos rfl]

theorem others_of_resume (here : s.progress? id = some (.looking name stage next))
    (hcalls : s'.calls = (s.resume id (Progress.after name next stage')).calls)
    (hother : ¬(region = name ∧ i = id)) : s'.stage? region i = s.stage? region i := by
  rw [stage?_of_resume here hcalls]
  split
  next hi =>
    have hregion : region ≠ name := fun heq => hother ⟨heq, hi⟩
    rw [hi, Progress.stage?_after, if_neg (Ne.symm hregion), stage?_of_looking_other here hregion]
  next => rfl

theorem Step.aside_or_looked (hstep : Step s m s') :
    Aside s s' ∨ ∃ name id stage stage' notes, Looked s s' name id stage stage' notes ∧
      ∃ interrupt answer, m = .go id interrupt answer := by
  cases hstep with
  | idle => exact Or.inl ⟨rfl, rfl, fun _ _ => Or.inl rfl⟩
  | enter program => exact Or.inl ⟨rfl, rfl, fun _ _ => Or.inl (stage?_enter program)⟩
  | note here =>
    refine Or.inl ⟨rfl, rfl, fun region i => places_of_resume here rfl ?_⟩
    exact Or.inl rfl
  | @ask id _ _ name _ here =>
    refine Or.inl ⟨rfl, rfl, fun region i => places_of_resume here rfl ?_⟩
    by_cases hname : name = region
    · exact Or.inr ⟨rfl, if_pos hname⟩
    · exact Or.inl (if_neg hname)
  | @look id _ _ name stage stage' next cache notes here stepped =>
    refine Or.inr ⟨name, id, stage, stage', notes, ?_, _, _, rfl⟩
    exact ⟨RegionCache.transition_of_step stepped, rfl, stage?_of_looking here,
      pending_of_resume here rfl, fun _ _ => others_of_resume here rfl⟩

/-- What holds of some traffic and is kept by each move holds after any moves. -/
theorem run_induction {P : Traffic α → Prop} (hkeep : ∀ s m s', P s → Step s m s' → P s')
    (moves : List (Move α)) (h : P s) : P (s.run moves) := by
  induction moves generalizing s with
  | nil => exact h
  | cons m rest ih => exact ih (hkeep s m (s.step m) h (step_step s m))

/-! ### Programs stay -/

theorem program?_step {program : Engine α} {id : LookupId} {m : Move α} {s' : Traffic α}
    (hstep : Step s m s') (h : s.program? id = some program) : s'.program? id = some program := by
  have hresume : ∀ {i : LookupId} {q : Progress α} {s' : Traffic α},
      s'.calls = (s.resume i q).calls → s'.program? id = some program := by
    intro i q s' hcalls
    rw [program?, hcalls, resume, List.getElem?_modify, ← h, program?]
    cases s.calls[id]? with
    | none => rfl
    | some call =>
      by_cases hi : i = id
      · simp [hi]
      · simp [hi]
  cases hstep with
  | idle => exact h
  | enter =>
    obtain ⟨call, hcall, hprogram⟩ := Option.map_eq_some_iff.mp h
    have hlt := (List.getElem?_eq_some_iff.mp hcall).1
    rw [program?, List.getElem?_append_left hlt, hcall, ← hprogram]
    rfl
  | note => exact hresume rfl
  | ask => exact hresume rfl
  | look => exact hresume rfl

theorem program?_run {program : Engine α} {id : LookupId} (h : s.program? id = some program)
    (moves : List (Move α)) : (s.run moves).program? id = some program :=
  run_induction (P := fun s => s.program? id = some program)
    (fun _ _ _ h hstep => program?_step hstep h) moves h

end Traffic

end ClusterGate
