import ClusterGate.Catalog.Memo
import ClusterGate.Proofs.Context.Family
import ClusterGate.Session.Activity

/-!
# Calls under a context

A call is looked at now and then while contexts are made and cancelled and time passes. The first look
that finds it cancelled, past its deadline or with its work done settles it, in this order, and its work
is looked at by no look that interrupts it nor by any later one. Main statement: `contexts_govern`.
-/

namespace ClusterGate

variable {α : Type}

namespace Context

/-- A look at a call of an operation, with what its work would give if it were looked at. -/
def poll (c : Context) (operation : String) (ts : Tokens) (now : Nat) (offer : Option α) :
    Option (Except GateError α) :=
  (guarded (c.interrupt? ts now) offer).map fun
    | .error i => .error (.ofInterrupt operation i)
    | .ok a => .ok a

/-- The deadline has passed at this time of the clock that timers go by. -/
def IsLate (c : Context) (now : Nat) : Prop := ∃ d, c.deadline = some d ∧ d ≤ now

variable {c : Context} {operation : String} {ts : Tokens} {now : Nat} {offer : Option α}

theorem hasExpired_iff : c.hasExpired now = true ↔ c.IsLate now := by
  unfold hasExpired IsLate
  cases c.deadline with
  | none => simp
  | some d => simp

theorem interrupt?_of_cancelled (h : ts.isCancelled c.token = true) :
    c.interrupt? ts now = some .cancelled := by
  rw [interrupt?, if_pos h]

theorem interrupt?_of_late (h : ¬ts.isCancelled c.token = true) (hlate : c.IsLate now) :
    c.interrupt? ts now = some .expired := by
  rw [interrupt?, if_neg h, if_pos (hasExpired_iff.mpr hlate)]

theorem interrupt?_of_free (h : ¬ts.isCancelled c.token = true) (hearly : ¬c.IsLate now) :
    c.interrupt? ts now = none := by
  rw [interrupt?, if_neg h, if_neg fun hexpired => hearly (hasExpired_iff.mp hexpired)]

theorem interrupt?_isSome_iff :
    (c.interrupt? ts now).isSome = true ↔ ts.isCancelled c.token = true ∨ c.IsLate now := by
  by_cases hcancelled : ts.isCancelled c.token = true
  · simp [interrupt?_of_cancelled hcancelled, hcancelled]
  · by_cases hlate : c.IsLate now
    · simp [interrupt?_of_late hcancelled hlate, hlate]
    · simp [interrupt?_of_free hcancelled hlate, hcancelled, hlate]

end Context

/-! ### A call among other happenings -/

/-- Something is done with contexts, time passes, or the call is looked at while its work would give
this. -/
inductive Happening (α : Type) where
  | deed (d : Deed)
  | tick (ms : Nat)
  | poll (offer : Option α)

/-- The contexts, the time up to which timers have fired, the outcome of the call if it has one, and
the number of looks at its work. -/
structure Wrapped (α : Type) where
  family : Family
  now : Nat
  outcome : Option (Except GateError α) := none
  polled : Nat := 0

namespace Wrapped

/-- A happening. A call with an outcome is over; an interrupt keeps the work from being looked at. -/
def step (c : Context) (operation : String) (s : Wrapped α) : Happening α → Wrapped α
  | .deed d => { s with family := s.family.step d }
  | .tick ms => { s with now := s.now + ms }
  | .poll offer => match s.outcome with
    | some _ => s
    | none =>
      { s with
        outcome := c.poll operation s.family.tokens s.now offer
        polled := if (c.interrupt? s.family.tokens s.now).isSome then s.polled else s.polled + 1 }

def run (c : Context) (operation : String) (s : Wrapped α) (hs : List (Happening α)) : Wrapped α :=
  hs.foldl (step c operation) s

/-- Something would settle the call now. -/
def Ready (c : Context) (s : Wrapped α) (offer : Option α) : Prop :=
  s.family.tokens.isCancelled c.token = true ∨ c.IsLate s.now ∨ ∃ a, offer = some a

variable {c : Context} {operation : String} {s : Wrapped α} {offer : Option α}
  {outcome : Except GateError α} {earlier later hs : List (Happening α)} {h : Happening α}

/-- At no look yet there was anything to settle the call. -/
def Unready (c : Context) (operation : String) (s : Wrapped α) (hs : List (Happening α)) : Prop :=
  ∀ earlier offer later, hs = earlier ++ .poll offer :: later →
    ¬Ready c (s.run c operation earlier) offer

theorem run_concat : s.run c operation (hs ++ [h]) = (s.run c operation hs).step c operation h := by
  rw [run, List.foldl_append]
  rfl

theorem run_append_cons : s.run c operation (earlier ++ h :: later) =
    ((s.run c operation earlier).step c operation h).run c operation later := by
  rw [run, List.foldl_append]
  rfl

theorem step_poll (h : s.outcome = none) (offer : Option α) : s.step c operation (.poll offer) =
    { s with
      outcome := c.poll operation s.family.tokens s.now offer
      polled := if (c.interrupt? s.family.tokens s.now).isSome then s.polled else s.polled + 1 } := by
  simp only [step, h]

theorem poll_eq_none_iff :
    c.poll operation s.family.tokens s.now offer = none ↔ ¬Ready c s offer := by
  unfold Ready Context.poll
  by_cases hcancelled : s.family.tokens.isCancelled c.token = true
  · simp [Context.interrupt?_of_cancelled hcancelled, guarded, hcancelled]
  · by_cases hlate : c.IsLate s.now
    · simp [Context.interrupt?_of_late hcancelled hlate, guarded, hlate]
    · cases offer with
      | none => simp [Context.interrupt?_of_free hcancelled hlate, guarded, hcancelled, hlate]
      | some a => simp [Context.interrupt?_of_free hcancelled hlate, guarded]

/-- A call that is over stays as it is. -/
theorem over_run (h : s.outcome = some outcome) (hs : List (Happening α)) :
    (s.run c operation hs).outcome = some outcome ∧ (s.run c operation hs).polled = s.polled := by
  induction hs using List.reverseRecOn with
  | nil => exact ⟨h, rfl⟩
  | append_singleton hs next ih =>
    rw [run_concat]
    cases next with
    | deed | tick => exact ih
    | poll offer =>
      simp only [step, ih.1]
      exact ⟨trivial, ih.2⟩

/-- A call has no outcome exactly if no look has found anything to settle it. -/
theorem outcome_eq_none_iff (h : s.outcome = none) :
    (s.run c operation hs).outcome = none ↔ Unready c operation s hs := by
  induction hs using List.reverseRecOn with
  | nil =>
    refine iff_of_true h fun earlier offer later heq => ?_
    simp at heq
  | append_singleton hs next ih =>
    have hlast : Unready c operation s (hs ++ [next]) ↔ Unready c operation s hs ∧
        ∀ offer, next = .poll offer → ¬Ready c (s.run c operation hs) offer := by
      constructor
      · intro hunready
        refine ⟨fun earlier offer later heq => ?_, fun offer heq => ?_⟩
        · exact hunready earlier offer (later ++ [next]) (by rw [heq]; simp)
        · exact hunready hs offer [] (by rw [heq])
      · rintro ⟨hbefore, hnow⟩ earlier offer later heq
        rcases List.eq_nil_or_concat later with rfl | ⟨front, last, rfl⟩
        · obtain ⟨rfl, hpoll⟩ := List.append_inj' heq rfl
          exact hnow offer (List.singleton_inj.mp hpoll)
        · rw [List.concat_eq_append, ← List.cons_append, ← List.append_assoc] at heq
          obtain ⟨rfl, -⟩ := List.append_inj' heq rfl
          exact hbefore earlier offer front rfl
    rw [run_concat, hlast, ← ih]
    cases next with
    | deed | tick => simp [step]
    | poll offer =>
      cases houtcome : (s.run c operation hs).outcome with
      | some outcome => simp [step, houtcome]
      | none =>
        rw [step_poll houtcome]
        simp [poll_eq_none_iff]

/-- The first look that finds something settles the call. -/
theorem outcome_of_first (h : s.outcome = none) (hfirst : Unready c operation s earlier)
    (hpoll : c.poll operation (s.run c operation earlier).family.tokens
      (s.run c operation earlier).now offer = some outcome) :
    (s.run c operation (earlier ++ .poll offer :: later)).outcome = some outcome := by
  have hnone := (outcome_eq_none_iff h).mpr hfirst
  rw [run_append_cons]
  refine (over_run ?_ later).1
  rw [step_poll hnone]
  exact hpoll

/-- From a look that is interrupted on, the work is looked at no more. -/
theorem polled_of_interrupted
    (h : ((s.run c operation earlier).family.tokens.isCancelled c.token = true) ∨
      c.IsLate (s.run c operation earlier).now) :
    (s.run c operation (earlier ++ .poll offer :: later)).polled =
      (s.run c operation earlier).polled := by
  generalize hat : s.run c operation earlier = t at h
  rw [run_append_cons, hat]
  cases houtcome : t.outcome with
  | some outcome =>
    have hsame : t.step c operation (.poll offer) = t := by simp only [step, houtcome]
    rw [hsame]
    exact (over_run houtcome later).2
  | none =>
    have hinterrupt := Context.interrupt?_isSome_iff.mpr h
    obtain ⟨i, hi⟩ := Option.isSome_iff_exists.mp hinterrupt
    have hover : (t.step c operation (.poll offer)).outcome = some (.error (.ofInterrupt operation i)) := by
      rw [step_poll houtcome]
      simp only [Context.poll, hi, guarded, Option.map_some]
    rw [(over_run hover later).2, step_poll houtcome]
    simp only [hinterrupt, if_true]

/-- A look that is not interrupted looks at the work. -/
theorem polled_of_free (houtcome : (s.run c operation earlier).outcome = none)
    (hfree : ¬((s.run c operation earlier).family.tokens.isCancelled c.token = true ∨
      c.IsLate (s.run c operation earlier).now)) :
    (s.run c operation (earlier ++ [.poll offer])).polled =
      (s.run c operation earlier).polled + 1 := by
  rw [run_concat, step_poll houtcome]
  exact if_neg (mt Context.interrupt?_isSome_iff.mp hfree)

/-- A call whose context is cancelled before its first look is settled by this look, and its work is
never looked at. -/
theorem entered_cancelled (hbound : c.token < s.family.tokens.parents.length)
    (hcancelled : s.family.tokens.isCancelled c.token = true) (houtcome : s.outcome = none)
    (hpolled : s.polled = 0) (hs : List (Happening α)) :
    (s.run c operation hs).polled = 0 ∧ ((∃ offer, .poll offer ∈ hs) →
      (s.run c operation hs).outcome = some (.error (.cancelled operation))) := by
  suffices hall : c.token < (s.run c operation hs).family.tokens.parents.length ∧
      (s.run c operation hs).family.tokens.isCancelled c.token = true ∧
      (s.run c operation hs).polled = 0 ∧
      ((s.run c operation hs).outcome = none ∧ (∀ offer, .poll offer ∉ hs) ∨
        (s.run c operation hs).outcome = some (.error (.cancelled operation))) by
    obtain ⟨-, -, hzero, hsettled⟩ := hall
    refine ⟨hzero, fun ⟨offer, hoffer⟩ => ?_⟩
    exact hsettled.resolve_left fun hnone => hnone.2 offer hoffer
  induction hs using List.reverseRecOn with
  | nil => exact ⟨hbound, hcancelled, hpolled, Or.inl ⟨houtcome, nofun⟩⟩
  | append_singleton hs next ih =>
    obtain ⟨hbound, hcancelled, hzero, hsettled⟩ := ih
    rw [run_concat]
    cases next with
    | deed d =>
      obtain ⟨hbound, hcancelled⟩ := Family.isCancelled_step hbound hcancelled d
      exact ⟨hbound, hcancelled, hzero, hsettled.imp_left fun hnone => ⟨hnone.1, by simpa using hnone.2⟩⟩
    | tick ms =>
      exact ⟨hbound, hcancelled, hzero, hsettled.imp_left fun hnone => ⟨hnone.1, by simpa using hnone.2⟩⟩
    | poll offer =>
      rcases hsettled with ⟨hnone, -⟩ | hover
      · rw [step_poll hnone]
        refine ⟨hbound, hcancelled, ?_, Or.inr ?_⟩
        · simp only [Context.interrupt?_of_cancelled hcancelled, Option.isSome_some, if_true, hzero]
        · simp only [Context.poll, Context.interrupt?_of_cancelled hcancelled, guarded]
          rfl
      · have hsame : (s.run c operation hs).step c operation (.poll offer) = s.run c operation hs := by
          simp only [step, hover]
        rw [hsame]
        exact ⟨hbound, hcancelled, hzero, Or.inr hover⟩

def deedsOf : List (Happening α) → List Deed
  | [] => []
  | .deed d :: hs => d :: deedsOf hs
  | _ :: hs => deedsOf hs

theorem deedsOf_append (earlier later : List (Happening α)) :
    deedsOf (earlier ++ later) = deedsOf earlier ++ deedsOf later := by
  induction earlier with
  | nil => rfl
  | cons h earlier ih =>
    cases h with
    | deed d => exact congrArg (d :: ·) ih
    | tick | poll => exact ih

theorem family_run (deeds : List Deed) (h : s.family = Family.after deeds) (hs : List (Happening α)) :
    (s.run c operation hs).family = Family.after (deeds ++ deedsOf hs) := by
  induction hs using List.reverseRecOn with
  | nil => simpa [deedsOf, run] using h
  | append_singleton hs next ih =>
    rw [run_concat, deedsOf_append, ← List.append_assoc]
    cases next with
    | deed d =>
      rw [step, ih]
      exact (Family.after_concat _ d).symm
    | tick ms =>
      change _ = Family.after (deeds ++ deedsOf hs ++ [])
      rw [List.append_nil]
      exact ih
    | poll offer =>
      have hkept : ((s.run c operation hs).step c operation (.poll offer)).family =
          (s.run c operation hs).family := by
        rw [step]
        split <;> rfl
      change _ = Family.after (deeds ++ deedsOf hs ++ [])
      rw [hkept, ih, List.append_nil]

end Wrapped

/-! ### The calls of the program -/

open Session (World)
open Session.Activity (pollSleeping sleepOperation)

/-- Everything that waits under a context is a call of this kind: the sleep of a session, waiting for
the lock of a region, fetching its table, reading a release, and listing all of them. What is settled
goes on with the outcome; what is not waits, and the first look at the work begins it. -/
structure WrappedThroughout (c : Context) : Prop where
  sleeping : ∀ (w : World) wake value, pollSleeping c wake value w =
    match c.poll sleepOperation w.tokens w.fired (if wake ≤ w.fired then some value else none) with
    | some (.ok v) => .finished (.ok (.value v))
    | some (.error e) => .finished (.error (.gate e))
    | none => .sleeping c wake value
  entering : ∀ (cache : RegionCache) region id ts now answer,
    cache.step region id (c.interrupt? ts now) answer .missed =
      match c.poll RegionCache.waitOperation ts now (none : Option Unit) with
      | some (.error e) => some (cache, .done (.error e), [])
      | _ => some (cache.join region id, .queued, [])
  waiting : ∀ (cache : RegionCache) region id ts now answer,
    cache.step region id (c.interrupt? ts now) answer .queued =
      match c.poll RegionCache.waitOperation ts now
        (if cache.holds region id then some () else none) with
      | some (.ok ()) => some (cache, .locked, [])
      | some (.error e) => some (cache.leave region id, .done (.error e), [])
      | none => none
  fetching : ∀ (cache : RegionCache) region id ts now answer called,
    cache.step region id (c.interrupt? ts now) answer (.fetching called) =
      match c.poll RegionCache.fetchOperation ts now (if called then answer else none) with
      | some (.ok (.ok skus)) => some (cache, .fetched skus, [])
      | some (.ok (.error e)) => some (cache.failFetch region id (.ofStorage e))
      | some (.error e) => some (cache.failFetch region id e)
      | none => if called then none else some (cache, .fetching true, [])
  reading : ∀ (memo : ComponentMemo) name ts now answer called,
    memo.step name (c.interrupt? ts now) answer (.reading called) =
      match c.poll ComponentMemo.readOperation ts now (if called then answer else none) with
      | some (.ok a) => match ComponentMemo.ofAnswer name a with
        | .ok components => some (memo, .decoded components)
        | .error e => some (memo, .done (.error e))
      | some (.error e) => some (memo, .done (.error e))
      | none => if called then none else some (memo, .reading true)
  listing : ∀ ts now answer called,
    CatalogListing.step (c.interrupt? ts now) answer (.listing called) =
      match c.poll CatalogListing.listOperation ts now (if called then answer else none) with
      | some (.ok (.ok records)) => some (.done (.ok records))
      | some (.ok (.error e)) => some (.done (.error (.ofStorage e)))
      | some (.error e) => some (.done (.error e))
      | none => if called then none else some (.listing true)

theorem wrapped_throughout (c : Context) : WrappedThroughout c := by
  refine ⟨?sleeping, ?entering, ?waiting, ?fetching, ?reading, ?listing⟩
  case sleeping =>
    intro w wake value
    unfold pollSleeping Context.poll World.interrupt?
    cases c.interrupt? w.tokens w.fired with
    | some i => rfl
    | none => cases (if wake ≤ w.fired then some value else none) <;> rfl
  case entering =>
    intro cache region id ts now answer
    unfold Context.poll
    cases c.interrupt? ts now <;> rfl
  case waiting =>
    intro cache region id ts now answer
    unfold RegionCache.step Context.poll
    cases c.interrupt? ts now with
    | some i => rfl
    | none => cases (if cache.holds region id then some () else none) <;> rfl
  case fetching =>
    intro cache region id ts now answer called
    unfold Context.poll
    cases c.interrupt? ts now with
    | some i => rfl
    | none =>
      cases called with
      | false => rfl
      | true => rcases answer with _ | (e | skus) <;> rfl
  case reading =>
    intro memo name ts now answer called
    unfold Context.poll
    cases c.interrupt? ts now with
    | some i => rfl
    | none =>
      cases called with
      | false => rfl
      | true => cases answer <;> rfl
  case listing =>
    intro ts now answer called
    unfold Context.poll
    cases c.interrupt? ts now with
    | some i => rfl
    | none =>
      cases called with
      | false => rfl
      | true => rcases answer with _ | (e | records) <;> rfl

/-! ### The laws -/

open Family (Struck Heeds origins)
open Wrapped (Unready deedsOf)

/-- How a call is settled, whatever happens and whenever it is looked at. -/
structure Settled (deeds : List Deed) (i : Nat) (c : Context) (operation : String) (s : Wrapped α)
    (hs : List (Happening α)) : Prop where
  waiting : Unready c operation s hs → (s.run c operation hs).outcome = none
  cancelled : ∀ earlier offer later, hs = earlier ++ .poll offer :: later →
    Unready c operation s earlier →
    (s.run c operation earlier).family.tokens.isCancelled c.token = true →
    (s.run c operation hs).outcome = some (.error (.cancelled operation))
  late : ∀ earlier offer later, hs = earlier ++ .poll offer :: later →
    Unready c operation s earlier →
    ¬(s.run c operation earlier).family.tokens.isCancelled c.token = true →
    c.IsLate (s.run c operation earlier).now →
    (s.run c operation hs).outcome = some (.error (.deadlineExceeded operation))
  completed : ∀ earlier a later, hs = earlier ++ .poll (some a) :: later →
    Unready c operation s earlier →
    ¬(s.run c operation earlier).family.tokens.isCancelled c.token = true →
    ¬c.IsLate (s.run c operation earlier).now → (s.run c operation hs).outcome = some (.ok a)
  unlooked : ∀ earlier offer later, hs = earlier ++ .poll offer :: later →
    ((s.run c operation earlier).family.tokens.isCancelled c.token = true ∨
      c.IsLate (s.run c operation earlier).now) →
    (s.run c operation hs).polled = (s.run c operation earlier).polled
  looked : ∀ earlier offer, hs = earlier ++ [.poll offer] →
    (s.run c operation earlier).outcome = none →
    ¬((s.run c operation earlier).family.tokens.isCancelled c.token = true ∨
      c.IsLate (s.run c operation earlier).now) →
    (s.run c operation hs).polled = (s.run c operation earlier).polled + 1
  entered : s.family.tokens.isCancelled c.token = true → (s.run c operation hs).polled = 0 ∧
    ((∃ offer, .poll offer ∈ hs) →
      (s.run c operation hs).outcome = some (.error (.cancelled operation)))
  heeded : (s.run c operation hs).family.tokens.isCancelled c.token = true ↔
    ∃ j, Struck (deeds ++ deedsOf hs) j ∧ Heeds (origins (deeds ++ deedsOf hs)) i j

/-- What is said of contexts, after any deeds, and of the calls under them. -/
structure ContextLaws (deeds : List Deed) : Prop where
  cancelled : ∀ i c, (Family.after deeds).members[i]? = some c →
    ((Family.after deeds).tokens.isCancelled c.token = true ↔
      ∃ j, Struck deeds j ∧ Heeds (origins deeds) i j)
  downwards : ∀ i j k : Nat, (origins deeds)[k]? = some (.childOf i) → Heeds (origins deeds) j k →
    ¬Heeds (origins deeds) i j
  sideways : ∀ a b j k l : Nat, (origins deeds)[k]? = some (.childOf a) →
    (origins deeds)[l]? = some (.childOf b) → Heeds (origins deeds) b a → k ≠ l →
    Heeds (origins deeds) j l → ¬Heeds (origins deeds) k j
  made : ∀ i, i < (origins deeds).length ↔ ∃ c, (Family.after deeds).members[i]? = some c
  child : ∀ i c, (Family.after deeds).members[i]? = some c →
    origins (deeds ++ [.child i]) = origins deeds ++ [.childOf i] ∧
    ∃ t, (Family.after (deeds ++ [.child i])).members =
      (Family.after deeds).members ++ [⟨t, c.deadline⟩]
  clone : ∀ i c, (Family.after deeds).members[i]? = some c →
    origins (deeds ++ [.clone i]) = origins deeds ++ [.cloneOf i] ∧
    (Family.after (deeds ++ [.clone i])).members = (Family.after deeds).members ++ [c]
  deadline : ∀ i c time, (Family.after deeds).members[i]? = some c →
    (Family.after (deeds ++ [.deadlineAt i time])).members[i]? = some { c with deadline := some time }
  kept : ∀ i c d, (Family.after deeds).members[i]? = some c → (∀ time, d ≠ .deadlineAt i time) →
    (Family.after (deeds ++ [d])).members[i]? = some c
  settled : ∀ (α : Type) i c operation now (hs : List (Happening α)),
    (Family.after deeds).members[i]? = some c →
    Settled deeds i c operation { family := Family.after deeds, now := now } hs
  throughout : ∀ c, WrappedThroughout c

theorem settled_after {deeds : List Deed} {i : Nat} {c : Context}
    (hc : (Family.after deeds).members[i]? = some c) (operation : String) (now : Nat)
    (hs : List (Happening α)) :
    Settled deeds i c operation { family := Family.after deeds, now := now } hs := by
  have hsound := Family.sound_after deeds
  have hbound := hsound.reflects.bound (Family.held_of_member hc)
  refine ⟨?waiting, ?cancelled, ?late, ?completed, ?unlooked, ?looked, ?entered, ?heeded⟩
  case waiting => exact (Wrapped.outcome_eq_none_iff rfl).mpr
  case cancelled =>
    rintro earlier offer later rfl hfirst hcancelled
    refine Wrapped.outcome_of_first rfl hfirst ?_
    simp only [Context.poll, Context.interrupt?_of_cancelled hcancelled, guarded]
    rfl
  case late =>
    rintro earlier offer later rfl hfirst hcancelled hlate
    refine Wrapped.outcome_of_first rfl hfirst ?_
    simp only [Context.poll, Context.interrupt?_of_late hcancelled hlate, guarded]
    rfl
  case completed =>
    rintro earlier a later rfl hfirst hcancelled hlate
    refine Wrapped.outcome_of_first rfl hfirst ?_
    simp only [Context.poll, Context.interrupt?_of_free hcancelled hlate, guarded]
    rfl
  case unlooked =>
    rintro earlier offer later rfl hinterrupted
    exact Wrapped.polled_of_interrupted hinterrupted
  case looked =>
    rintro earlier offer rfl houtcome hfree
    exact Wrapped.polled_of_free houtcome hfree
  case entered => exact fun hcancelled => Wrapped.entered_cancelled hbound hcancelled rfl rfl hs
  case heeded =>
    have hheld : ∀ more, (Family.after (deeds ++ more)).held[i]? = some c.token := by
      intro more
      induction more using List.reverseRecOn with
      | nil =>
        rw [List.append_nil]
        exact Family.held_of_member hc
      | append_singleton more d ih =>
        rw [← List.append_assoc, Family.after_concat]
        exact Family.held_step ih d
    rw [Wrapped.family_run deeds rfl hs]
    exact Family.isCancelled_iff (hheld _)

theorem contexts_govern (deeds : List Deed) : ContextLaws deeds := by
  have hsound := Family.sound_after deeds
  refine ⟨?cancelled, ?downwards, ?sideways, ?made, ?child, ?clone, ?deadline, ?kept, ?settled,
    wrapped_throughout⟩
  case cancelled => exact fun i c hc => Family.isCancelled_iff (Family.held_of_member hc)
  case downwards => exact fun i j k hk hbelow => Family.not_heeds_descendant hk hbelow
  case sideways =>
    exact fun a b j k l hk hl hba hne hbelow => Family.not_heeds_sibling hk hl hba hne hbelow
  case made => exact fun i => ⟨hsound.member, fun ⟨c, hc⟩ => hsound.lt_of_member hc⟩
  case child =>
    intro i c hc
    rw [Family.origins_concat, Family.noted, if_pos (hsound.lt_of_member hc),
      Family.after_concat, Family.step, hc]
    exact ⟨rfl, _, rfl⟩
  case clone =>
    intro i c hc
    rw [Family.origins_concat, Family.noted, if_pos (hsound.lt_of_member hc),
      Family.after_concat, Family.step, hc]
    exact ⟨rfl, rfl⟩
  case deadline =>
    intro i c time hc
    rw [Family.after_concat]
    exact Family.member_deadlineAt hc time
  case kept =>
    intro i c d hc hd
    rw [Family.after_concat]
    exact Family.member_step hc hd
  case settled => exact fun α i c operation now hs hc => settled_after hc operation now hs

/-- The parent of a context is cancelled at the moment at which its work is done and its deadline is
over: the call is cancelled, and its work was looked at once, before. -/
example :
    let s : Wrapped Nat := { family := Family.after [.fresh, .deadlineAt 0 5, .child 0, .clone 0], now := 0 }
    let s := s.run ⟨1, some 5⟩ "op" [.poll none, .tick 5, .deed (.cancel 2), .poll (some 7), .poll none]
    (s.outcome, s.polled) = (some (.error (.cancelled "op")), 1) := by cbv

end ClusterGate
