import ClusterGate.Proofs.Engine.Announcement
import ClusterGate.Proofs.Sku.Bypass
import ClusterGate.Proofs.Sku.Inquiry

/-!
# Lookups that fail

A query that ends with an error, unless its SKU is not listed, leaves the cache as if it had never been
made: the tables are those of a run without it, and it is in no queue. The exception is a number that
cannot be read in a listing that the query has fetched itself; this table is kept as a whole. Main
statement: `failSafe_after`.
-/

namespace ClusterGate

namespace Sku.Inquiry

variable {α : Type} {region instanceType detail : String} {q : Inquiry} {f : q.Answer → α}
  {error : GateError}

def wanted (q : Inquiry) (region instanceType : String) (f : q.Answer → α) : Engine α :=
  q.program region instanceType >>= fun a => pure (f a)

theorem exists_refusal (h : region = "" ∨ instanceType = "" ∨ q.name? = some "") :
    ∃ detail, q.refusal? region instanceType = some detail := by
  unfold refusal?
  split_ifs with hname hregion htype
  · exact ⟨_, rfl⟩
  · exact ⟨_, rfl⟩
  · exact ⟨_, rfl⟩
  · rcases h with h | h | h
    · exact absurd h hregion
    · exact absurd h htype
    · exact absurd h hname

theorem wanted_of_refusal (h : q.refusal? region instanceType = some detail) :
    q.wanted region instanceType f = .done (.error (.invalidRequest detail)) := by
  rw [wanted, program_of_refusal h]
  rfl

theorem wanted_eq (h : q.refusal? region instanceType = none) :
    q.wanted region instanceType f = .ask (.region region) fun result =>
      .done ((q.reply region instanceType result).map f) := by
  rw [wanted, program_eq h]
  refine congrArg (Engine.ask (.region region)) (funext fun result => ?_)
  change (Engine.done (q.reply region instanceType result)).bind _ = _
  cases q.reply region instanceType result with
  | ok a => rfl
  | error e => rfl

theorem invalidResponse_of_number {s : Sku} {name : String} (h : s.number name = .error error) :
    error = .invalidResponse s.name name (s.capability? name) := by
  unfold Sku.number at h
  split at h
  next => cases h
  next =>
    cases h
    rfl

theorem invalidResponse_of_ofSku {s : Sku} (h : q.ofSku s = .error error) :
    ∃ name, error = .invalidResponse s.name name (s.capability? name) := by
  cases q with
  | memory | cpus => exact ⟨_, invalidResponse_of_number h⟩
  | record =>
    simp only [ofSku, CapabilityRecord.ofSku] at h
    cases hmemory : s.number Capability.memory with
    | error e =>
      rw [hmemory] at h
      cases h
      exact ⟨_, invalidResponse_of_number hmemory⟩
    | ok memory =>
      cases hcpus : s.number Capability.cpus with
      | error e =>
        rw [hmemory, hcpus] at h
        cases h
        exact ⟨_, invalidResponse_of_number hcpus⟩
      | ok cpus =>
        rw [hmemory, hcpus] at h
        cases h
  | _ => cases h

theorem error_of_table {table : RegionTable}
    (h : (q.reply region instanceType (.ok table)).map f = .error error) :
    error = .skuNotFound region instanceType ∨
      ∃ s name, Dict.get? instanceType table = some s ∧
        error = .invalidResponse s.name name (s.capability? name) := by
  rw [reply, verdict] at h
  cases hget : Dict.get? instanceType table with
  | none =>
    rw [hget] at h
    cases h
    exact Or.inl rfl
  | some s =>
    simp only [hget] at h
    cases hvalue : q.ofSku s with
    | ok a =>
      rw [hvalue] at h
      cases h
    | error e =>
      rw [hvalue] at h
      cases h
      obtain ⟨name, hname⟩ := invalidResponse_of_ofSku hvalue
      exact Or.inr ⟨s, name, rfl, hname⟩

end Sku.Inquiry

namespace Traffic

open RegionCache

variable {α : Type} {s s' : Traffic α} {id : LookupId} {region instanceType : String}
  {interrupt : Option Interrupt} {answer : Option (Except StorageError (List Sku))}
  {error : GateError} {moves earlier later : List (Move α)}

theorem step_of_result {result : Except GateError α} (h : s.result? id = some result) :
    s.step (.go id interrupt answer) = s := by
  obtain ⟨p, here, hresult⟩ := Option.bind_eq_some_iff.mp h
  match p, hresult with
  | .running (.done _), rfl => simp only [step, here]

theorem stage?_of_result {result : Except GateError α} (h : s.result? id = some result) :
    s.stage? region id = none := by
  obtain ⟨p, here, hresult⟩ := Option.bind_eq_some_iff.mp h
  match p, hresult with
  | .running (.done _), rfl =>
    rw [stage?, here]
    rfl

/-- A call whose move writes a table goes on with this table. -/
theorem written_of_step (hwrites : (s.step (.go id interrupt answer)).cache.tables ≠ s.cache.tables) :
    ∃ name listing next, s.progress? id = some (.looking name (.fetched listing) next) ∧
      (s.step (.go id interrupt answer)).cache.tables =
        s.cache.tables.insert name (RegionTable.ofListing listing) ∧
      (s.step (.go id interrupt answer)).progress? id =
        some (.running (next (.ok (RegionTable.ofListing listing)))) := by
  have hstep := step_step s (.go id interrupt answer)
  generalize s.step (.go id interrupt answer) = t at hstep hwrites ⊢
  cases hstep with
  | idle | note | ask => exact absurd rfl hwrites
  | @look _ _ _ name stage stage' next cache notes here stepped =>
    have htransition := transition_of_step stepped
    rcases htransition.table_cases with hsame | ⟨listing, rfl, htables⟩
    · exact absurd hsame hwrites
    · cases htransition with
      | store =>
        refine ⟨name, listing, next, here, htables, ?_⟩
        rw [progress?_resume, if_pos rfl]
        exact congrArg _ here

/-- Who waits at the head of a queue goes past the lock with its next move. -/
theorem acquired (hstage : s.stage? region id = some .queued) (hholds : s.cache.holds region id = true)
    (answer : Option (Except StorageError (List Sku))) :
    (s.step (.go id none answer)).stage? region id = some .locked := by
  obtain ⟨p, here, hp⟩ := Option.bind_eq_some_iff.mp hstage
  match p, hp with
  | .looking name stage next, hp =>
    obtain ⟨rfl, rfl⟩ := Option.ite_some_none_eq_some.mp hp
    have hmove : s.cache.step name id none answer .queued = some (s.cache, .locked, []) := by
      rw [RegionCache.step, hholds]
      rfl
    simp only [step, here, hmove]
    exact pending_of_resume here rfl

/-! ### Calls that are refused -/

theorem progress?_of_done {result : Except GateError α} {p : Progress α}
    (hcall : (after (earlier ++ later)).program? id = some (.done result))
    (here : (after earlier).progress? id = some p) : p = .running (.done result) := by
  have hattained := attained_of_progress? here hcall
  cases p with
  | running e => rw [Engine.Follows.eq_of_done hattained]
  | looking name stage next => exact nomatch Engine.Follows.eq_of_done hattained

theorem result?_of_done {result : Except GateError α}
    (hcall : (after moves).program? id = some (.done result)) :
    (after moves).result? id = some result := by
  obtain ⟨call, hcalls, _⟩ := Option.map_eq_some_iff.mp hcall
  have here : (after moves).progress? id = some call.progress := by
    rw [progress?, hcalls]
    rfl
  rw [← List.append_nil moves] at hcall
  rw [result?, here, progress?_of_done hcall here]
  rfl

theorem neverWrites_of_done {result : Except GateError α}
    (hcall : (after moves).program? id = some (.done result)) : NeverWrites moves id := by
  intro earlier interrupt answer later hmoves
  by_contra hwrites
  rw [after_concat] at hwrites
  obtain ⟨name, listing, next, here, _⟩ := written_of_step hwrites
  rw [hmoves] at hcall
  exact nomatch progress?_of_done hcall here

/-! ### Calls that ask for one table -/

def single (region : String) (g : Except GateError RegionTable → Except GateError α) : Engine α :=
  .ask (.region region) fun result => .done (g result)

variable {g : Except GateError RegionTable → Except GateError α}

theorem looking_of_single {c : RegionCache} {name : String} {stage : Lookup}
    {next : Except GateError RegionTable → Engine α}
    (h : Attained c (single region g) (.looking name stage next)) :
    name = region ∧ next = fun result => .done (g result) := by
  cases h with
  | refl => exact ⟨rfl, rfl⟩
  | answer _ rest => exact nomatch rest.eq_of_done

/-- When it writes a table, it is over with this table. -/
theorem written_of_single
    (hcall : (after (earlier ++ .go id interrupt answer :: later)).program? id =
      some (single region g))
    (hwrites : (after (earlier ++ [.go id interrupt answer])).cache.tables ≠
      (after earlier).cache.tables) :
    ∃ listing, (after earlier).stage? region id = some (.fetched listing) ∧
      (after (earlier ++ [.go id interrupt answer])).cache.tables =
        (after earlier).cache.tables.insert region (RegionTable.ofListing listing) ∧
      (after (earlier ++ [.go id interrupt answer])).result? id =
        some (g (.ok (RegionTable.ofListing listing))) := by
  rw [after_concat] at hwrites ⊢
  obtain ⟨name, listing, next, here, htables, hnext⟩ := written_of_step hwrites
  obtain ⟨rfl, rfl⟩ := looking_of_single (attained_of_progress? here hcall)
  refine ⟨listing, stage?_of_looking here, htables, ?_⟩
  rw [result?, hnext]
  rfl

theorem neverWrites_of_single (hcall : (after (moves ++ later)).program? id = some (single region g))
    (hlive : (after moves).result? id = none) : NeverWrites moves id := by
  intro before interrupt answer rest hmoves
  by_contra hwrites
  rw [hmoves, List.append_assoc, List.cons_append] at hcall
  obtain ⟨_, _, _, hresult⟩ := written_of_single hcall hwrites
  have hstays := result?_run hresult rest
  rw [← after_append, List.append_assoc, List.singleton_append, ← hmoves, hlive] at hstays
  cases hstays

/-- Who has ended has left no trace, or has written the table that it ended with. -/
theorem dispensable_or_written {result : Except GateError α}
    (hcall : (after moves).program? id = some (single region g))
    (hresult : (after moves).result? id = some result) :
    Dispensable moves id ∨
      ∃ earlier interrupt answer later listing, moves = earlier ++ .go id interrupt answer :: later ∧
        Dispensable earlier id ∧ (after earlier).stage? region id = some (.fetched listing) ∧
        (after (earlier ++ [.go id interrupt answer])).cache.tables =
          (after earlier).cache.tables.insert region (RegionTable.ofListing listing) ∧
        (after (earlier ++ [.go id interrupt answer])).result? id = some result ∧
        result = g (.ok (RegionTable.ofListing listing)) := by
  -- with the move that writes the call is over, so that it has written nothing before
  by_cases hnever : NeverWrites moves id
  · exact Or.inl (dispensable_of_neverWrites moves hnever)
  · simp only [NeverWrites, not_forall] at hnever
    obtain ⟨earlier, interrupt, answer, later, rfl, hwrites⟩ := hnever
    obtain ⟨listing, hstage, htables, hwritten⟩ := written_of_single hcall hwrites
    have hlive : (after earlier).result? id = none := by
      rw [Option.eq_none_iff_forall_ne_some]
      intro r hr
      rw [stage?_of_result hr] at hstage
      cases hstage
    have hstays := result?_run hwritten later
    rw [← after_append, List.append_assoc, List.singleton_append, hresult] at hstays
    refine Or.inr ⟨earlier, interrupt, answer, later, listing, rfl, ?_, hstage, htables, ?_, ?_⟩
    · exact dispensable_of_neverWrites earlier (neverWrites_of_single hcall hlive)
    · rw [hwritten, ← hstays]
    · exact Option.some.inj hstays

/-- What callers rely on when a query has failed, after some moves. -/
structure FailSafe (moves : List (Move α)) : Prop where
  /-- A query that ends with an error, but not for want of its SKU, might as well not have been made;
  or a number cannot be read in a table that the query has written with its last move. -/
  intact : ∀ id (q : Sku.Inquiry) region instanceType (f : q.Answer → α) error,
    (after moves).program? id = some (q.wanted region instanceType f) →
    (after moves).result? id = some (.error error) →
    (∀ region instanceType, error ≠ .skuNotFound region instanceType) →
    Dispensable moves id ∨
      ∃ earlier interrupt answer later listing s name,
        moves = earlier ++ .go id interrupt answer :: later ∧ Dispensable earlier id ∧
        (after earlier).stage? region id = some (.fetched listing) ∧
        (after (earlier ++ [.go id interrupt answer])).cache.tables =
          (after earlier).cache.tables.insert region (RegionTable.ofListing listing) ∧
        (after (earlier ++ [.go id interrupt answer])).result? id = some (.error error) ∧
        Dict.get? instanceType (RegionTable.ofListing listing) = some s ∧
        error = .invalidResponse s.name name (s.capability? name)
  /-- A call that is over does nothing any more, and neither holds a lock nor waits for one. -/
  ended : ∀ id result, (after moves).result? id = some result →
    (∀ interrupt answer, after (moves ++ [.go id interrupt answer]) = after moves) ∧
      ∀ region, id ∉ (after moves).cache.queue region
  /-- Who is past a lock holds it, alone. -/
  holder : ∀ region id, ((after moves).stage? region id).any Lookup.isHolder = true →
    ∀ i, (after moves).cache.holds region i = true ↔ i = id
  /-- A lock is held by a call that is past it, or can go past it with its next move. -/
  held : ∀ region id, (after moves).cache.holds region id = true →
    ((after moves).stage? region id).any Lookup.isHolder = true ∨
      (after moves).stage? region id = some .queued ∧
        ∀ answer, (after (moves ++ [.go id none answer])).stage? region id = some .locked
  /-- A lock that no call of the region holds or waits for is free. -/
  free : ∀ region, (∀ id, ((after moves).stage? region id).any Lookup.isQueued = false) →
    (after moves).cache.queue region = []
  /-- A query with an empty name begins with its refusal, and its beginning changes nothing else. -/
  refused : ∀ (q : Sku.Inquiry) region instanceType (f : q.Answer → α),
    region = "" ∨ instanceType = "" ∨ q.name? = some "" →
    (∃ detail, q.refusal? region instanceType = some detail ∧
      ∀ id, (after moves).program? id = some (q.wanted region instanceType f) →
        (after moves).result? id = some (.error (.invalidRequest detail))) ∧
    (after (moves ++ [.enter (q.wanted region instanceType f)])).cache = (after moves).cache ∧
    (after (moves ++ [.enter (q.wanted region instanceType f)])).ledger = (after moves).ledger ∧
    (after (moves ++ [.enter (q.wanted region instanceType f)])).history = (after moves).history

theorem failSafe_after (moves : List (Move α)) : FailSafe moves := by
  have horderly := orderly_after moves
  refine ⟨?intact, ?ended, ?holder, ?held, ?free, ?refused⟩
  case intact =>
    intro id q region instanceType f error hcall hresult hlisted
    cases hrefusal : q.refusal? region instanceType with
    | some detail =>
      rw [Sku.Inquiry.wanted_of_refusal hrefusal] at hcall
      exact Or.inl (dispensable_of_neverWrites moves (neverWrites_of_done hcall))
    | none =>
      rw [Sku.Inquiry.wanted_eq hrefusal] at hcall
      rcases dispensable_or_written hcall hresult with hnone | hwritten
      · exact Or.inl hnone
      · obtain ⟨earlier, interrupt, answer, later, listing, hmoves, hbefore, hstage, htables,
          hended, herror⟩ := hwritten
        rcases Sku.Inquiry.error_of_table herror.symm with hmissing | ⟨s, name, hget, hnumber⟩
        · exact absurd hmissing (hlisted _ _)
        · exact Or.inr ⟨earlier, interrupt, answer, later, listing, s, name, hmoves, hbefore,
            hstage, htables, hended, hget, hnumber⟩
  case ended =>
    intro id result hresult
    refine ⟨fun interrupt answer => ?_, fun region hqueued => ?_⟩
    · rw [after_concat, step_of_result hresult]
    · rw [horderly.queued, stage?_of_result hresult] at hqueued
      cases hqueued
  case holder =>
    intro region id hholder i
    rw [holds_iff, horderly.first region id hholder, Option.some.injEq, eq_comm]
  case held =>
    intro region id hholds
    have hqueued := List.mem_of_head? (holds_iff.mp hholds)
    rw [horderly.queued, Option.any_eq_true] at hqueued
    obtain ⟨stage, hstage, hstanding⟩ := hqueued
    cases stage with
    | queued => exact Or.inr ⟨hstage, fun answer => by rw [after_concat, acquired hstage hholds]⟩
    | locked | fetching | fetched =>
      rw [hstage]
      exact Or.inl rfl
    | checking | missed | done => cases hstanding
  case free =>
    intro region hnone
    rw [List.eq_nil_iff_forall_not_mem]
    intro id hqueued
    rw [horderly.queued, hnone id] at hqueued
    cases hqueued
  case refused =>
    intro q region instanceType f hempty
    obtain ⟨detail, hrefusal⟩ := Sku.Inquiry.exists_refusal hempty
    rw [Sku.Inquiry.wanted_of_refusal hrefusal, after_concat]
    exact ⟨⟨detail, hrefusal, fun _ => result?_of_done⟩, rfl, rfl, rfl⟩

end Traffic

end ClusterGate
