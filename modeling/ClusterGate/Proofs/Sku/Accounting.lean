import ClusterGate.Proofs.Engine.OneTable
import ClusterGate.Proofs.Sku.Census
import ClusterGate.Proofs.Sku.FailedLookup
import ClusterGate.Proofs.Telemetry.Ledger

/-!
# The accounts of the region cache

A lookup counts its hit or its miss and its fetch, and reports how the fetch ended, each at a step of its
own. Once the counters were set to zero while no lookup was under way, counts, events and calls of the
inventory agree with each other and with the lookups in every state, as long as only lookups touch these
counters and events. Main statement: `accounts_after`.
-/

namespace ClusterGate

/-! ### What the accounts are kept with -/

def Event.isPopulated : Event → Bool
  | .regionPopulated .. => true
  | _ => false

def Event.isFailedFetch : Event → Bool
  | .fetchFailed .. => true
  | _ => false

def Counter.ofCache : Counter → Bool
  | .cacheHits | .cacheMisses | .regionFetches => true
  | _ => false

def Note.ofCache : Note → Bool
  | .count counter _ => counter.ofCache
  | .emit event => event.isPopulated || event.isFailedFetch

/-- The program itself leaves no note of the kind that lookups leave. -/
inductive Engine.Spares {α : Type} : Engine α → Prop where
  | done (result : Except GateError α) : Spares (.done result)
  | note {n : Note} {e : Engine α} (other : n.ofCache = false) (rest : Spares e) : Spares (.note n e)
  | ask {q : Query} {next : Except GateError q.Answer → Engine α}
      (rest : ∀ result, Spares (next result)) : Spares (.ask q next)

theorem Sku.Inquiry.wanted_spares {α : Type} {q : Inquiry} {region instanceType : String}
    {f : q.Answer → α} : (q.wanted region instanceType f).Spares := by
  cases hrefusal : q.refusal? region instanceType with
  | some detail =>
    rw [wanted_of_refusal hrefusal]
    exact .done _
  | none =>
    rw [wanted_eq hrefusal]
    exact .ask fun _ => .done _

/-- A query asks for its own region, unless it is refused. -/
theorem Sku.Inquiry.asked_of_follows {α : Type} {q : Inquiry} {region instanceType name : String}
    {f : q.Answer → α} {told : String → Except GateError RegionTable → Prop}
    {next : Except GateError RegionTable → Engine α}
    (h : (q.wanted region instanceType f).Follows told (.ask (.region name) next)) :
    q.refusal? region instanceType = none ∧ name = region := by
  cases hrefusal : q.refusal? region instanceType with
  | some detail =>
    rw [wanted_of_refusal hrefusal] at h
    cases h.eq_of_done
  | none =>
    rw [wanted_eq hrefusal] at h
    cases h with
    | refl => exact ⟨rfl, rfl⟩
    | answer _ rest => cases rest.eq_of_done

/-! ### How far lookups have come -/

namespace Journey

open RegionCache

def hasChecked : Journey → Bool
  | .underWay .checking => false
  | _ => true

/-- It has found its table at the first look. -/
def isHit : Journey → Bool
  | .ended .checking _ => true
  | _ => false

/-- It has not found its table at the first look. -/
def isMiss : Journey → Bool
  | .underWay .checking | .ended .checking _ => false
  | _ => true

/-- It waits for the lock, or has just got it and is about to look again. -/
def isWaiting : Journey → Bool
  | .underWay .missed | .underWay .queued | .underWay .locked => true
  | _ => false

/-- It has found its table at the second look. -/
def isLateHit : Journey → Bool
  | .ended .locked (.ok _) => true
  | _ => false

def hasGivenUp : Journey → Bool
  | .ended .missed (.error e) | .ended .queued (.error e) =>
    e == .cancelled waitOperation || e == .deadlineExceeded waitOperation
  | _ => false

def hasBegun : Journey → Bool
  | .underWay (.fetching _) | .underWay (.fetched _) => true
  | .ended (.fetching _) _ | .ended (.fetched _) _ => true
  | _ => false

/-- Its fetch has neither failed nor been stored yet. -/
def isFetching : Journey → Bool
  | .underWay (.fetching _) | .underWay (.fetched _) => true
  | _ => false

def hasStored : Journey → Bool
  | .ended (.fetched _) _ => true
  | _ => false

def hasFailed : Journey → Bool
  | .ended (.fetching _) _ => true
  | _ => false

def hasCalled : Journey → Bool
  | .underWay (.fetching called) | .ended (.fetching called) _ => called
  | .underWay (.fetched _) | .ended (.fetched _) _ => true
  | _ => false

theorem countP_hasChecked (js : List Journey) :
    js.countP hasChecked = js.countP isHit + js.countP isMiss := by
  have hsplit : ∀ j : Journey, j.hasChecked.toNat = j.isHit.toNat + j.isMiss.toNat := by
    intro j
    cases j with
    | underWay stage => cases stage <;> rfl
    | ended last result => cases last <;> rfl
  simp only [countP_eq_sum, hsplit, List.sum_map_add]

theorem countP_hasBegun (js : List Journey) :
    js.countP hasBegun = js.countP hasStored + js.countP hasFailed + js.countP isFetching := by
  have hsplit : ∀ j : Journey,
      j.hasBegun.toNat = j.hasStored.toNat + j.hasFailed.toNat + j.isFetching.toNat := by
    intro j
    cases j with
    | underWay stage => cases stage <;> rfl
    | ended last result => cases last <;> rfl
  simp only [countP_eq_sum, hsplit, List.sum_map_add]

theorem miss_split {j : Journey} (h : j.Possible) : j.isMiss.toNat =
    j.hasBegun.toNat + j.isWaiting.toNat + j.isLateHit.toNat + j.hasGivenUp.toNat := by
  -- an end with no transition to it, such as an error at the second look, would be none of these
  cases j with
  | underWay stage =>
    cases stage with
    | done result => cases h
    | _ => rfl
  | ended last result =>
    obtain ⟨region, id, c, c', notes, t⟩ := h
    cases t with
    | turnedAway i | giveUp i => cases i <;> rfl
    | _ => rfl

theorem countP_isMiss {js : List Journey} (h : ∀ j ∈ js, j.Possible) : js.countP isMiss =
    js.countP hasBegun + js.countP isWaiting + js.countP isLateHit + js.countP hasGivenUp := by
  simp only [countP_eq_sum, ← List.sum_map_add]
  exact congrArg List.sum (List.map_congr_left fun j hj => miss_split (h j hj))

theorem isMiss_of_hasBegun {j : Journey} (h : j.hasBegun = true) : j.isMiss = true := by
  cases j with
  | underWay stage => cases stage <;> first | rfl | cases h
  | ended last result => cases last <;> first | rfl | cases h

theorem hasBegun_of_hasCalled {j : Journey} (h : j.hasCalled = true) : j.hasBegun = true := by
  cases j with
  | underWay stage => cases stage <;> first | rfl | cases h
  | ended last result => cases last <;> first | rfl | cases h

end Journey

/-! ### What lookups leave -/

theorem Note.total_eq_sum (counter : Counter) (ns : List Note) :
    Note.total counter ns = (ns.map (Note.adds counter)).sum := by
  induction ns with
  | nil => rfl
  | cons n rest ih => rw [Note.total, ih, List.map_cons, List.sum_cons]

theorem Note.adds_eq_zero {counter : Counter} {n : Note} (hcounter : counter.ofCache = true)
    (hn : n.ofCache = false) : n.adds counter = 0 := by
  cases n with
  | emit event => rfl
  | count c k =>
    refine if_neg fun heq => ?_
    rw [Note.ofCache, heq, hcounter] at hn
    cases hn

def Progress.Spares {α : Type} : Progress α → Prop
  | .running e => e.Spares
  | .looking _ _ next => ∀ result, (next result).Spares

namespace Traffic

variable {α : Type} {s s' : Traffic α} {m : Move α} {moves : List (Move α)} {ns : List Note}

/-- What the calls still have to do leaves no notes of the kind that lookups leave. -/
def Sparing (s : Traffic α) : Prop := ∀ id p, s.progress? id = some p → p.Spares

theorem Sparing.resume {id : LookupId} {q : Progress α} (h : s.Sparing) (hq : q.Spares)
    (hcalls : s'.calls = (s.resume id q).calls) : s'.Sparing := by
  intro i p here
  have hsame : s'.progress? i = (s.resume id q).progress? i := by rw [progress?, progress?, hcalls]
  rw [hsame, progress?_resume] at here
  split at here
  · obtain ⟨_, -, rfl⟩ := Option.map_eq_some_iff.mp here
    exact hq
  · exact h i p here

theorem Sparing.step (h : s.Sparing) (henter : ∀ program, m = .enter program → program.Spares)
    (hstep : Step s m s') : s'.Sparing := by
  cases hstep with
  | idle => exact h
  | enter program =>
    intro i p here
    rw [progress?_enter] at here
    split at here
    · cases here
      exact henter program rfl
    · exact h i p here
  | note here =>
    have hspares := h _ _ here
    cases hspares with
    | note other rest => exact h.resume (q := .running _) rest rfl
  | ask here =>
    have hspares := h _ _ here
    cases hspares with
    | ask rest => exact h.resume (q := .looking _ _ _) rest rfl
  | @look _ _ _ _ _ stage' _ _ _ here =>
    have hspares := h _ _ here
    refine h.resume ?_ rfl
    cases stage' with
    | done result => exact hspares result
    | _ => exact hspares

theorem Sparing.run (h : s.Sparing) (moves : List (Move α))
    (henter : ∀ program, .enter program ∈ moves → program.Spares) : (s.run moves).Sparing := by
  induction moves generalizing s with
  | nil => exact h
  | cons m rest ih =>
    have hnext := h.step (fun program hm => henter program (hm ▸ List.mem_cons_self)) (step_step s m)
    exact ih hnext fun program hm => henter program (List.mem_cons_of_mem m hm)

theorem sparing_empty : Sparing ({} : Traffic α) := by
  intro id p here
  cases here

/-- Notes have been taken in, and those that lookups leave are the ones of the steps of lookups. -/
structure Booked (s : Traffic α) (moves : List (Move α)) (ns : List Note) : Prop where
  ledger : (s.run moves).ledger = s.ledger.notes ns
  sum : ∀ f : Note → Nat, (∀ n, n.ofCache = false → f n = 0) →
    (ns.map f).sum = ((s.passages moves).map fun p => (p.notes.map f).sum).sum

theorem exists_booked_step (h : s.Sparing) (m : Move α) : ∃ ns, Booked s [m] ns := by
  rcases unpassed_or_passed s m with ⟨hnone, hun⟩ | ⟨p, hsome, hpassed⟩
  · have hpassages : s.passages [m] = [] := by
      rw [passages, hnone]
      rfl
    rcases hun.ledger with hsame | ⟨id, n, next, here, hnoted⟩
    · exact ⟨[], hsame, fun f hf => by rw [hpassages]; rfl⟩
    · refine ⟨[n], hnoted, fun f hf => ?_⟩
      have hspares := h _ _ here
      cases hspares with
      | note other rest =>
        rw [hpassages, List.map_singleton, List.sum_singleton, hf n other]
        rfl
  · refine ⟨p.notes, hpassed.ledger, fun f hf => ?_⟩
    rw [passages, hsome]
    exact (Nat.add_zero _).symm

theorem exists_booked (h : s.Sparing) (moves : List (Move α))
    (henter : ∀ program, .enter program ∈ moves → program.Spares) : ∃ ns, Booked s moves ns := by
  induction moves generalizing s with
  | nil => exact ⟨[], rfl, fun f hf => rfl⟩
  | cons m rest ih =>
    obtain ⟨first, hfirst⟩ := exists_booked_step h m
    have hnext := h.step (fun program hm => henter program (hm ▸ List.mem_cons_self)) (step_step s m)
    obtain ⟨later, hlater⟩ := ih hnext fun program hm => henter program (List.mem_cons_of_mem m hm)
    refine ⟨first ++ later, ?_, fun f hf => ?_⟩
    · have hledger : (s.step m).ledger = s.ledger.notes first := hfirst.ledger
      rw [run, List.foldl_cons, ← run, hlater.ledger, hledger, Ledger.notes, Ledger.notes, Ledger.notes,
        List.foldl_append]
    · rw [List.map_append, List.sum_append, hfirst.sum f hf, hlater.sum f hf]
      rw [passages, passages, passages, List.append_nil, List.map_append, List.sum_append]

theorem Booked.sum_eq {f : Note → Nat} {past : Journey → Bool} (h : Booked s moves ns)
    (hidle : s.underWay = []) (hf : ∀ n, n.ofCache = false → f n = 0)
    (hmarks : Passage.Marks (fun p => (p.notes.map f).sum) past) :
    (ns.map f).sum = (s.lookups moves).countP past := by
  rw [h.sum f hf, countP_lookups hmarks, hidle]
  exact (Nat.zero_add _).symm

/-! ### The accounts -/

def reset (s : Traffic α) : Traffic α := { s with ledger := s.ledger.reset }

def counted (s : Traffic α) (counter : Counter) : Nat := (s.ledger.tally.get counter).toNat

/-- How many events of some kind were reported since. -/
def reportedSince (s s' : Traffic α) (kind : Event → Bool) : Nat :=
  (s'.ledger.entries.drop s.ledger.entries.length).countP fun entry => kind entry.event

/-- How often the inventory was called since. -/
def calledSince (s s' : Traffic α) : Nat :=
  (s'.history.drop s.history.length).countP Occurrence.isCall

/-- A counter of the cache counts the lookups that are past the step at which it is added to. -/
theorem Booked.counted_eq {counter : Counter} {past : Journey → Bool} (h : Booked s moves ns)
    (hidle : s.underWay = []) (hzero : s.ledger.tally = {}) (hcounter : counter.ofCache = true)
    (hmarks : Passage.Marks (fun p => (p.notes.map (Note.adds counter)).sum) past)
    (hsmall : (s.lookups moves).countP past < 2 ^ 64) :
    (s.run moves).counted counter = (s.lookups moves).countP past := by
  have hstart : s.ledger.tally.get counter = 0 := by
    rw [hzero]
    cases counter <;> rfl
  rw [counted, h.ledger, Ledger.get_notes, hstart, UInt64.zero_add, UInt64.toNat_ofNat',
    Note.total_eq_sum, h.sum_eq hidle (fun _ => Note.adds_eq_zero hcounter) hmarks]
  exact Nat.mod_eq_of_lt hsmall

/-- An event of the cache is reported for the lookups that are past the step at which it is reported. -/
theorem Booked.reportedSince_eq {kind : Event → Bool} {past : Journey → Bool} (h : Booked s moves ns)
    (hidle : s.underWay = []) (hkind : ∀ event, (Note.emit event).ofCache = false → kind event = false)
    (hmarks : Passage.Marks
      (fun p => (p.notes.map fun n => ((n.event?.map kind).getD false).toNat).sum) past) :
    s.reportedSince (s.run moves) kind = (s.lookups moves).countP past := by
  have hother : ∀ n : Note, n.ofCache = false → ((n.event?.map kind).getD false).toNat = 0 := by
    intro n hn
    cases n with
    | count => rfl
    | emit event => exact congrArg Bool.toNat (hkind event hn)
  rw [← h.sum_eq hidle hother hmarks, ← countP_eq_sum, ← List.countP_filterMap, reportedSince,
    h.ledger, Ledger.entries_notes, List.drop_left, List.countP_map]
  rfl

theorem history_run (s : Traffic α) (moves : List (Move α)) : (s.run moves).history =
    s.history ++ (s.passages moves).flatMap fun p => Occurrence.between p.region p.stage p.next := by
  induction moves generalizing s with
  | nil => exact (List.append_nil _).symm
  | cons m rest ih =>
    rw [run, List.foldl_cons, ← run, ih, passages, List.flatMap_append, ← List.append_assoc]
    refine congrArg (· ++ _) ?_
    rcases unpassed_or_passed s m with ⟨hnone, hun⟩ | ⟨p, hsome, hpassed⟩
    · rw [hnone, hun.history]
      exact (List.append_nil _).symm
    · rw [hsome, hpassed.history, Option.toList_some, List.flatMap_singleton]

theorem calledSince_eq (s : Traffic α) (hidle : s.underWay = []) (moves : List (Move α)) :
    s.calledSince (s.run moves) = (s.lookups moves).countP Journey.hasCalled := by
  have hmarks : Passage.Marks
      (fun p => (Occurrence.between p.region p.stage p.next).countP Occurrence.isCall)
      Journey.hasCalled := by
    refine ⟨rfl, fun t => ?_⟩
    cases t with
    | @fail called e => cases called <;> rfl
    | _ => rfl
  rw [calledSince, history_run, List.drop_left, List.countP_flatMap, countP_lookups hmarks, hidle]
  exact (Nat.zero_add _).symm

section Counts

variable (h : Booked s moves ns) (hidle : s.underWay = []) (hzero : s.ledger.tally = {})
include h hidle

theorem Booked.populated : s.reportedSince (s.run moves) Event.isPopulated =
    (s.lookups moves).countP Journey.hasStored :=
  h.reportedSince_eq hidle (fun _ hother => (Bool.or_eq_false_iff.mp hother).1)
    ⟨rfl, fun t => by cases t <;> rfl⟩

theorem Booked.failed : s.reportedSince (s.run moves) Event.isFailedFetch =
    (s.lookups moves).countP Journey.hasFailed :=
  h.reportedSince_eq hidle (fun _ hother => (Bool.or_eq_false_iff.mp hother).2)
    ⟨rfl, fun t => by cases t <;> rfl⟩

include hzero

theorem Booked.hits (hsmall : (s.lookups moves).countP Journey.isHit < 2 ^ 64) :
    (s.run moves).counted .cacheHits = (s.lookups moves).countP Journey.isHit :=
  h.counted_eq hidle hzero rfl ⟨rfl, fun t => by cases t <;> rfl⟩ hsmall

theorem Booked.misses (hsmall : (s.lookups moves).countP Journey.isMiss < 2 ^ 64) :
    (s.run moves).counted .cacheMisses = (s.lookups moves).countP Journey.isMiss :=
  h.counted_eq hidle hzero rfl ⟨rfl, fun t => by cases t <;> rfl⟩ hsmall

theorem Booked.fetches (hsmall : (s.lookups moves).countP Journey.isMiss < 2 ^ 64) :
    (s.run moves).counted .regionFetches = (s.lookups moves).countP Journey.hasBegun :=
  h.counted_eq hidle hzero rfl ⟨rfl, fun t => by cases t <;> rfl⟩ <|
    Nat.lt_of_le_of_lt (List.countP_mono_left fun _ _ => Journey.isMiss_of_hasBegun) hsmall

end Counts

theorem answered_reset (earlier moves : List (Move α)) :
    Answered ((after earlier).reset.run moves) := by
  have horderly := orderly_after earlier
  have hreset : Orderly (after earlier).reset :=
    ⟨horderly.nodup, horderly.queued, horderly.first, horderly.missing⟩
  have hanswered : Answered (after earlier).reset := answered_after earlier
  exact hanswered.run hreset moves

/-- The accounts of the cache after some moves. -/
structure Accounts (s : Traffic α) (moves : List (Move α)) : Prop where
  /-- Hits and misses are the lookups that have looked for their table. -/
  checks : (s.run moves).counted .cacheHits + (s.run moves).counted .cacheMisses =
    (s.lookups moves).countP Journey.hasChecked
  /-- Who has missed the table has begun to fetch it, or waits or is about to look again, or has found
  it at the second look, or has given up. -/
  misses : (s.run moves).counted .cacheMisses =
    (s.run moves).counted .regionFetches + (s.lookups moves).countP Journey.isWaiting +
      (s.lookups moves).countP Journey.isLateHit + (s.lookups moves).countP Journey.hasGivenUp
  /-- Each fetch was reported as populated or as failed, or goes on. -/
  fetches : (s.run moves).counted .regionFetches =
    s.reportedSince (s.run moves) Event.isPopulated +
      s.reportedSince (s.run moves) Event.isFailedFetch +
      (s.lookups moves).countP Journey.isFetching
  /-- The inventory is not called more often than fetches are counted. -/
  calls : s.calledSince (s.run moves) ≤ (s.run moves).counted .regionFetches
  /-- Of the queries, those look something up that are not refused for an empty name. -/
  asked : ∀ (q : Sku.Inquiry) region instanceType (f : q.Answer → α) id name stage,
    (s.run moves).program? id = some (q.wanted region instanceType f) →
    (s.run moves).stage? name id = some stage → q.refusal? region instanceType = none ∧ name = region

/-- From when the counters are set to zero with no lookup under way, provided that programs leave the
counters and the events of the cache alone and that no count reaches 2 ^ 64. -/
theorem accounts_after {earlier moves : List (Move α)} (hidle : (after earlier).underWay = [])
    (hspares : ∀ program, .enter program ∈ earlier ++ moves → program.Spares)
    (hhits : ((after earlier).reset.lookups moves).countP Journey.isHit < 2 ^ 64)
    (hmisses : ((after earlier).reset.lookups moves).countP Journey.isMiss < 2 ^ 64) :
    Accounts (after earlier).reset moves := by
  have hsparing : (after earlier).reset.Sparing := sparing_empty.run earlier fun program hm =>
    hspares program (List.mem_append_left _ hm)
  obtain ⟨ns, h⟩ := exists_booked hsparing moves fun program hm =>
    hspares program (List.mem_append_right _ hm)
  have hidle : (after earlier).reset.underWay = [] := hidle
  refine ⟨?checks, ?misses, ?fetches, ?calls, ?asked⟩
  case checks =>
    rw [h.hits hidle rfl hhits, h.misses hidle rfl hmisses, Journey.countP_hasChecked]
  case misses =>
    rw [h.misses hidle rfl hmisses, h.fetches hidle rfl hmisses, Journey.countP_isMiss]
    refine possible_of_mem_lookups (fun j hj => ?_) moves
    rw [hidle] at hj
    cases hj
  case fetches =>
    rw [h.fetches hidle rfl hmisses, h.populated hidle, h.failed hidle,
      Journey.countP_hasBegun]
  case calls =>
    rw [h.fetches hidle rfl hmisses, calledSince_eq _ hidle]
    exact List.countP_mono_left fun _ _ => Journey.hasBegun_of_hasCalled
  case asked =>
    intro q region instanceType f id name stage hcall hstage
    obtain ⟨p, here, hlooking⟩ := Option.bind_eq_some_iff.mp hstage
    have hattained := (answered_reset earlier moves).attained here hcall
    cases p with
    | running e => cases hlooking
    | looking other stage' next =>
      obtain ⟨hrefusal, rfl⟩ := Sku.Inquiry.asked_of_follows hattained
      rw [Progress.stage?] at hlooking
      split at hlooking
      next heq => exact ⟨hrefusal, heq.symm⟩
      next => cases hlooking

/-- One hit, one fetch, one table that is found after the wait for it, and one wait that is given up. -/
theorem accounts_after_crowd :
    let query (region : String) : Engine Sku := Sku.Inquiry.sku.wanted region "D4" id
    let go (id : LookupId) : Move Sku := .go id none (some (.ok [{ name := "D4" }]))
    let earlier := .enter (query "eastus") :: List.replicate 8 (go 0)
    let moves := [.enter (query "eastus"), .enter (query "westeurope"), .enter (query "westeurope"),
      .enter (query "westeurope"), go 1, go 1, go 2, go 2, go 2, go 3, go 3, go 3, go 4, go 4,
      .go 4 (some .cancelled) none, go 2, go 2, go 2, go 2, go 2, go 3, go 3]
    Accounts (after earlier).reset moves ∧
      ((after earlier).reset.run moves).ledger.tally.counts = [0, 0, 1, 3, 1, 0] := by
  intro query go earlier moves
  refine ⟨accounts_after ?idle ?spares ?hits ?misses, by decide +kernel⟩
  case idle => exact List.eq_nil_of_length_eq_zero (by decide +kernel)
  case spares =>
    intro program hm
    have hquery : program = query "eastus" ∨ program = query "westeurope" := by
      simpa [earlier, moves, go] using hm
    rcases hquery with rfl | rfl
    · exact Sku.Inquiry.wanted_spares
    · exact Sku.Inquiry.wanted_spares
  case hits => decide +kernel
  case misses => decide +kernel

end Traffic

end ClusterGate
