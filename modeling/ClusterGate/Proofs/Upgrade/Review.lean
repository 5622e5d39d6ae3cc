import ClusterGate.Cli.Run
import ClusterGate.Proofs.Catalog.Listing
import ClusterGate.Proofs.Cli.Command
import ClusterGate.Proofs.Telemetry.Ledger

/-!
# Reviews of upgrades

A review decides on the complete catalog or not at all: one record that lists no version, an interrupt
or a failing store ends it with an error, which leaves nothing behind. Main statement:
`reviews_complete`.
-/

namespace ClusterGate

open Session (StoreCall)

namespace Upgrade

open Catalog

/-! ### Reviews -/

/-- What comes of a review and which calls of the store it makes, given the looks at it. -/
inductive Reviewed (old new : String) (looks : List Look) :
    Option (Except GateError Decision) → List StoreCall → Prop where
  | oldUnreadable {e : Version.Invalid} (unreadable : Version.parse old = .error e) :
      Reviewed old new looks (some (.error (.invalidRequest e.message))) []
  | newUnreadable {v : Version} {e : Version.Invalid} (readable : Version.parse old = .ok v)
      (unreadable : Version.parse new = .error e) :
      Reviewed old new looks (some (.error (.invalidRequest e.message))) []
  | equal {v w : Version} (before : Version.parse old = .ok v) (after : Version.parse new = .ok w)
      (same : v.same w = true) : Reviewed old new looks (some (.ok ⟨v, w, true, .equal⟩)) []
  | waiting {v w : Version} (before : Version.parse old = .ok v) (after : Version.parse new = .ok w)
      (differ : v.same w = false) (unlisted : listed? looks = none) :
      Reviewed old new looks none (listCalls looks)
  | unlistable {v w : Version} {e : GateError} (before : Version.parse old = .ok v)
      (after : Version.parse new = .ok w) (differ : v.same w = false)
      (failed : listed? looks = some (.error e)) :
      Reviewed old new looks (some (.error e)) (listCalls looks)
  | misnamed {v w : Version} {e : Version.Invalid} {front back : List Record} {r : Record}
      (before : Version.parse old = .ok v) (after : Version.parse new = .ok w)
      (differ : v.same w = false) (listed : listed? looks = some (.ok (front ++ r :: back)))
      (named : ∀ q ∈ front, ∃ u, Version.parse q.name = .ok u)
      (unreadable : Version.parse r.name = .error e) :
      Reviewed old new looks (some (.error (.invalidRelease r.name e.fault.text))) (listCalls looks)
  | decided {v w : Version} {records : List Record} {releases : List Release}
      (before : Version.parse old = .ok v) (after : Version.parse new = .ok w)
      (differ : v.same w = false) (listed : listed? looks = some (.ok records))
      (complete : List.Forall₂ Lists records releases) :
      Reviewed old new looks (some (.ok (decide v w releases))) (listCalls looks)

/-- What a result leaves behind. -/
def resultNotes : Except GateError Decision → List Note
  | .ok d => decisionNotes d
  | .error _ => []

/-- The end of a review that has the records. -/
def settled (v w : Version) : Except GateError (List Record) → Engine Decision
  | .error e => .done (.error e)
  | .ok records => match records.mapM Release.ofRecord with
    | .error e => .done (.error e)
    | .ok releases => Engine.notes (decisionNotes (decide v w releases)) >>= fun _ =>
      pure (decide v w releases)

/-- What a review comes to by the records. -/
def judged (v w : Version) : Except GateError (List Record) → Except GateError Decision
  | .error e => .error e
  | .ok records => (records.mapM Release.ofRecord).map (decide v w)

variable {old new : String} {v w : Version} {looks : List Look}

theorem decide_of_same (h : v.same w = true) : decide v w [] = ⟨v, w, true, .equal⟩ := by
  simp only [decide, reasonFor, h, if_pos, Reason.isAllowed]

theorem review_of_same (h : v.same w = true) :
    Standing.ofEngine (review v w) = .ended (.ok ⟨v, w, true, .equal⟩) ∧
      (review v w).leading = decisionNotes ⟨v, w, true, .equal⟩ := by
  rw [review, if_pos h, ← decide_of_same h]
  exact ⟨rfl, rfl⟩

theorem review_of_differ (h : v.same w = false) : review v w = .ask .releases (settled v w) := by
  rw [review, if_neg (by simp [h])]
  refine congrArg (Engine.ask Query.releases) (funext fun r => ?_)
  cases r with
  | error e => rfl
  | ok records =>
    rw [settled]
    change ((Engine.ofExcept (records.mapM Release.ofRecord)) >>= _) = _
    cases records.mapM Release.ofRecord <;> rfl

theorem ofEngine_settled (v w : Version) (r : Except GateError (List Record)) :
    Standing.ofEngine (settled v w r) = .ended (judged v w r) ∧
      (settled v w r).leading = resultNotes (judged v w r) := by
  cases r with
  | error e => exact ⟨rfl, rfl⟩
  | ok records =>
    rw [settled, judged]
    cases records.mapM Release.ofRecord <;> exact ⟨rfl, rfl⟩

theorem reviewed_of_listed (before : Version.parse old = .ok v) (after : Version.parse new = .ok w)
    (differ : v.same w = false) :
    Reviewed old new looks ((listed? looks).map (judged v w)) (listCalls looks) := by
  cases hlisted : listed? looks with
  | none => exact .waiting before after differ hlisted
  | some r =>
    cases r with
    | error e => exact .unlistable before after differ hlisted
    | ok records =>
      rw [Option.map_some, judged]
      rcases mapM_ofRecord records with ⟨releases, hok, hlists⟩ | ⟨front, r, back, e, rfl, hfront, hr, herror⟩
      · rw [hok]
        exact .decided before after differ hlisted hlists
      · rw [herror]
        exact .misnamed before after differ hlisted hfront hr

/-- A review of two names ends at once, or it asks for the records and is settled by them. -/
theorem reviewNames_cases (old new : String) :
    (∃ result, Standing.ofEngine (reviewNames old new) = .ended result ∧
      (reviewNames old new).leading = resultNotes result ∧
      ∀ looks, Reviewed old new looks (some result) []) ∨
    ∃ v w, reviewNames old new = .ask .releases (settled v w) ∧
      ∀ looks, Reviewed old new looks ((listed? looks).map (judged v w)) (listCalls looks) := by
  unfold reviewNames requested
  cases hold : Version.parse old with
  | error e => exact Or.inl ⟨_, rfl, rfl, fun _ => .oldUnreadable hold⟩
  | ok v =>
    cases hnew : Version.parse new with
    | error e => exact Or.inl ⟨_, rfl, rfl, fun _ => .newUnreadable hold hnew⟩
    | ok w =>
      cases hsame : v.same w with
      | true =>
        obtain ⟨hended, hnotes⟩ := review_of_same hsame
        exact Or.inl ⟨_, hended, hnotes, fun _ => .equal hold hnew hsame⟩
      | false =>
        exact Or.inr ⟨v, w, review_of_differ hsame, fun _ => reviewed_of_listed hold hnew hsame⟩

variable {turns : List (Turn Decision)} {id : Nat} {visit : Visit Decision}

def decisionOf? (visit : Visit Decision) : Option Decision := visit.result?.bind Except.toOption

/-- The notes of a visit are those of its decision, if it has one. -/
def Noted (visit : Visit Decision) : Prop :=
  visit.notes = ((decisionOf? visit).map decisionNotes).getD []

theorem noted_of_ended {result : Except GateError Decision}
    (hended : visit.standing = .ended result) (hnotes : visit.notes = resultNotes result) :
    Noted visit := by
  rw [Noted, decisionOf?, Visit.result?, hended, hnotes]
  cases result <;> rfl

theorem reviewed_visit (h : (Visits.after turns).visit? id = some visit)
    (hprogram : visit.program = reviewNames old new) :
    Reviewed old new visit.looks visit.result? visit.calls ∧ Noted visit := by
  rcases reviewNames_cases old new with ⟨result, hended, hnotes, hreviewed⟩ | ⟨v, w, hasks, hreviewed⟩
  · have hvisit : visit.standing = .ended result ∧ visit.calls = [] ∧
        visit.notes = resultNotes result := by
      refine Visits.visit_of_program (Q := fun visit => visit.standing = .ended result ∧
        visit.calls = [] ∧ visit.notes = resultNotes result) ⟨hended, rfl, hnotes⟩ ?_ h hprogram
      rintro visit memo l ⟨hstanding, hcalls, hleft⟩
      simp only [Visit.looked, hstanding, Standing.look, List.append_nil]
      exact ⟨trivial, hcalls, hleft⟩
    obtain ⟨hstanding, hcalls, hleft⟩ := hvisit
    refine ⟨?_, noted_of_ended hstanding hleft⟩
    rw [Visit.result?, hstanding, hcalls]
    exact hreviewed visit.looks
  · have hends : ∀ r, ∃ result, Standing.ofEngine (settled v w r) = .ended result :=
      fun r => ⟨judged v w r, (ofEngine_settled v w r).1⟩
    have hvisit : Listing (settled v w) visit := by
      refine Visits.visit_of_program ?_ (fun _ memo l hlisting => hlisting.looked hends memo l) h
        hprogram
      rw [hasks]
      exact .begun
    have hlooks := hreviewed visit.looks
    cases hvisit with
    | begun => exact ⟨hlooks, rfl⟩
    | called free untold =>
      simp only [listed?, listCalls, free, untold] at hlooks
      exact ⟨hlooks, rfl⟩
    | told listed ends =>
      obtain ⟨hended, hnotes⟩ := ofEngine_settled v w _
      rw [hended] at ends
      cases ends
      rw [listed] at hlooks
      exact ⟨hlooks, noted_of_ended rfl hnotes⟩

/-! ### Counters and events -/

def decisions (s : Visits Decision) : List Decision := s.visits.filterMap decisionOf?

def Decision.event (d : Decision) : Event :=
  .upgradeDecided d.old.text d.new.text d.allowed d.reason.tag

/-- Each decision is counted once, by its verdict, and told by one event; nothing else is. -/
structure Accounted (s : Visits Decision) : Prop where
  counters : ∀ counter, s.ledger.tally.get counter =
    UInt64.ofNat ((decisions s).countP fun d => Counter.ofVerdict d.allowed = counter)
  events : (s.ledger.entries.map Entry.event).Perm ((decisions s).map Decision.event)

theorem flatMap_notes {visits : List (Visit Decision)} (h : ∀ visit ∈ visits, Noted visit) :
    visits.flatMap Visit.notes = (visits.filterMap decisionOf?).flatMap decisionNotes := by
  induction visits with
  | nil => rfl
  | cons visit rest ih =>
    obtain ⟨hvisit, hrest⟩ := List.forall_mem_cons.mp h
    rw [List.flatMap_cons, hvisit, ih hrest]
    cases hd : decisionOf? visit with
    | none =>
      rw [List.filterMap_cons_none hd]
      rfl
    | some d =>
      rw [List.filterMap_cons_some hd]
      rfl

theorem total_decisionNotes (ds : List Decision) (counter : Counter) :
    Note.total counter (ds.flatMap decisionNotes) =
      ds.countP fun d => Counter.ofVerdict d.allowed = counter := by
  induction ds with
  | nil => rfl
  | cons d rest ih =>
    rw [List.flatMap_cons, Note.total_append, ih, List.countP_cons, Nat.add_comm]
    by_cases h : Counter.ofVerdict d.allowed = counter <;>
      simp [decisionNotes, Note.total, Note.adds, h]

theorem events_of_notes (ds : List Decision) :
    (ds.flatMap decisionNotes).filterMap Note.event? = ds.map Decision.event := by
  induction ds with
  | nil => rfl
  | cons d rest ih =>
    rw [List.flatMap_cons, List.filterMap_append, ih]
    rfl

theorem accounted (h : ∀ program, .enter program ∈ turns → ∃ old new, program = reviewNames old new) :
    Accounted (Visits.after turns) := by
  have hnotes : ∀ visit ∈ (Visits.after turns).visits, Noted visit := by
    intro visit hvisit
    obtain ⟨id, hid⟩ := List.mem_iff_getElem?.mp hvisit
    obtain ⟨old, new, hprogram⟩ := h visit.program (Visits.entered turns hid)
    exact (reviewed_visit hid hprogram).2
  have hperm := Visits.noted_perm turns
  rw [flatMap_notes hnotes, ← decisions] at hperm
  constructor
  · intro counter
    rw [Visits.ledger, Ledger.get_notes, Note.total_perm hperm, total_decisionNotes]
    cases counter <;> exact UInt64.zero_add _
  · have hevents := hperm.filterMap Note.event?
    rw [events_of_notes] at hevents
    rw [Visits.ledger, Ledger.entries_notes, List.map_append, List.map_map]
    exact (List.Perm.of_eq (List.map_id _)).trans hevents

/-! ### The upgrade command -/

theorem run_of_ended {α σ : Type} {answer : (q : Query) → σ → Except GateError q.Answer × σ}
    {take : Note → σ → σ} {e : Engine α} {result : Except GateError α}
    (h : Standing.ofEngine e = .ended result) (s : σ) : (e.run answer take s).1 = result := by
  induction e generalizing s with
  | done r =>
    cases h
    rfl
  | note n next ih => exact ih h (take n s)
  | ask q next => cases q <;> cases h

/-- How a run looks at its only visit: no one cancels it, and the files answer its call at the next
look. -/
def commandLooks (clock : Cli.Clock) (s : Cli.Settings) (files : FileTree) : List Look :=
  [{ interrupt := clock.interrupt? s CatalogListing.listOperation false },
   { interrupt := clock.interrupt? s CatalogListing.listOperation true
     records := some (FileStore.list s.catalogDir files releaseKind) }]

/-- What a run is told of the records. -/
theorem listed?_commandLooks (clock : Cli.Clock) (s : Cli.Settings) (files : FileTree) :
    listed? (commandLooks clock s files) =
      some (Direct.settleListing (Cli.catalogIn s clock files) Direct.maxSteps (.listing false)) := by
  simp only [Direct.settleListing_start, Direct.Surroundings.interrupt?, Cli.catalogIn, commandLooks,
    listed?, List.findSome?, Look.told?]
  cases clock.interrupt? s CatalogListing.listOperation false with
  | some i => rfl
  | none =>
    rw [Option.none_or]
    cases clock.interrupt? s CatalogListing.listOperation true with
    | some i => rfl
    | none => cases FileStore.list s.catalogDir files releaseKind <;> rfl

theorem withCatalog_reviewed (s : Cli.Settings) (clock : Cli.Clock) (files : FileTree)
    (old new : String) :
    ∃ calls, Reviewed old new (commandLooks clock s files)
      (some (Cli.withCatalog s clock files (reviewNames old new))) calls := by
  rcases reviewNames_cases old new with ⟨result, hended, -, hreviewed⟩ | ⟨v, w, hasks, hreviewed⟩
  · refine ⟨[], ?_⟩
    rw [Cli.withCatalog, Direct.run, run_of_ended hended]
    exact hreviewed _
  · refine ⟨listCalls (commandLooks clock s files), ?_⟩
    have hlooks := hreviewed (commandLooks clock s files)
    rw [listed?_commandLooks, Option.map_some] at hlooks
    rw [Cli.withCatalog, Direct.run, hasks, Engine.run]
    simp only [Direct.answer]
    rw [run_of_ended (ofEngine_settled v w _).1]
    exact hlooks

/-- How a review ends a run. -/
structure Exits (result : Except GateError Decision) (o : Cli.Outcome) : Prop where
  allowed : o.status = 0 ↔ ∃ d, result = .ok d ∧ d.allowed = true
  denied : o.status = 2 ↔ ∃ d, result = .ok d ∧ d.allowed = false
  failed : o.status = 1 ↔ ∃ e, result = .error e
  silent : ∀ e, result = .error e → o.output = ""

theorem exits_ofAttempt (old new : String) (result : Except GateError Decision) :
    Exits result (.ofAttempt (Cli.upgradeOutcome old new result)) := by
  cases result with
  | error e =>
    constructor <;> simp [Cli.upgradeOutcome, Cli.Outcome.ofAttempt, Cli.failure, Cli.failedStatus]
  | ok d =>
    cases hd : d.allowed <;> constructor <;>
      simp [Cli.upgradeOutcome, Cli.Outcome.ofAttempt, Cli.deniedStatus, hd]

variable {given : Cli.Surroundings} {args : List String} {s : Cli.Settings}

theorem run_upgrade (h : Cli.parse given.environment args = .ok (s, .upgrade old new))
    (hcounted : s.timeoutSeconds ≤ given.clock.range) :
    (Cli.run given args).1 = .exits (.ofAttempt (Cli.upgradeOutcome old new
      (Cli.withCatalog s given.clock given.files (reviewNames old new)))) := by
  simp only [Cli.run, h, Nat.not_lt.mpr hcounted, if_false, Cli.runCommand, Cli.runUpgrade]

theorem run_aborted {command : Cli.Command}
    (h : Cli.parse given.environment args = .ok (s, command))
    (huncounted : given.clock.range < s.timeoutSeconds) :
    Cli.run given args = (.aborts, given.server) := by
  simp only [Cli.run, h, huncounted, if_true]

/-! ### All reviews -/

/-- What is said of reviews: of each visit in an interleaving with other reviews, of the counters and
events of all, and of the upgrade command. A command whose deadline the clock cannot count ends without
a review and without an outcome. -/
structure Complete (turns : List (Turn Decision)) (given : Cli.Surroundings) : Prop where
  reviewed : ∀ id visit old new, (Visits.after turns).visit? id = some visit →
    visit.program = reviewNames old new → Reviewed old new visit.looks visit.result? visit.calls
  noted : ∀ id visit old new, (Visits.after turns).visit? id = some visit →
    visit.program = reviewNames old new → Noted visit
  accounted : (∀ program, .enter program ∈ turns → ∃ old new, program = reviewNames old new) →
    Accounted (Visits.after turns)
  exits : ∀ old new result, Exits result (.ofAttempt (Cli.upgradeOutcome old new result))
  parsed : ∀ args s old new, Cli.AsksUpgrade s old new args → s.catalogDir ≠ "" →
    s.timeoutSeconds ≤ Text.maxWord → given.environment.get? Cli.catalogVariable ≠ some "" →
    Cli.parse given.environment args = .ok (s, .upgrade old new)
  command : ∀ args s old new, Cli.parse given.environment args = .ok (s, .upgrade old new) →
    s.timeoutSeconds ≤ given.clock.range →
    ∃ result calls outcome,
      Reviewed old new (commandLooks given.clock s given.files) (some result) calls ∧
        (Cli.run given args).1 = .exits outcome ∧ Exits result outcome
  aborted : ∀ args s old new, Cli.parse given.environment args = .ok (s, .upgrade old new) →
    given.clock.range < s.timeoutSeconds → Cli.run given args = (.aborts, given.server)

theorem reviews_complete (turns : List (Turn Decision)) (given : Cli.Surroundings) :
    Complete turns given where
  reviewed _ _ _ _ h hprogram := (reviewed_visit h hprogram).1
  noted _ _ _ _ h hprogram := (reviewed_visit h hprogram).2
  accounted := accounted
  exits := exits_ofAttempt
  parsed _ _ _ _ h hpath hseconds henv := Cli.parse_upgrade h henv hpath hseconds
  command args s old new h hcounted := by
    obtain ⟨calls, hreviewed⟩ := withCatalog_reviewed s given.clock given.files old new
    exact ⟨_, calls, _, hreviewed, run_upgrade h hcounted, exits_ofAttempt old new _⟩
  aborted _ _ _ _ h huncounted := run_aborted h huncounted

/-- Two releases in files, and a clock that passes no deadline. -/
def twoReleases : Cli.Surroundings where
  files := ⟨.dir [("Release", .dir [("v11.3.0.json", .file "\x7b\x7d".toUTF8.toList),
    ("v11.4.0.json", .file "\x7b\x7d".toUTF8.toList)])], []⟩
  environment := []
  server := ⟨none, [], []⟩
  clock := ⟨2 ^ 62, fun _ _ _ => false⟩

/-- An upgrade that is allowed, and one whose deadline cannot be counted. -/
theorem reviewed_twoReleases :
    let args := ["--catalog-dir", "/", "upgrade", "--from", "v11.3.0", "--to=11.4"]
    let endless := ["--catalog-dir=/", "--timeout-secs", "18446744073709551615", "upgrade",
      "--from", "v11.3.0", "--to=11.4"]
    Cli.parse twoReleases.environment args = .ok (⟨"/", 30⟩, .upgrade "v11.3.0" "11.4") ∧
      (∃ d calls outcome,
        Reviewed "v11.3.0" "11.4" (commandLooks twoReleases.clock ⟨"/", 30⟩ twoReleases.files)
          (some (.ok d)) calls ∧ d.allowed = true ∧
        (Cli.run twoReleases args).1 = .exits outcome ∧ outcome.status = 0) ∧
      Cli.run twoReleases endless = (.aborts, twoReleases.server) := by
  intro args endless
  have hcomplete := reviews_complete [] twoReleases
  have hparse : Cli.parse twoReleases.environment args =
      .ok (⟨"/", 30⟩, .upgrade "v11.3.0" "11.4") := by decide +kernel
  refine ⟨hparse, ?_, ?_⟩
  · have hstatus : (Cli.run twoReleases args).1.status = 0 := by decide +kernel
    obtain ⟨result, calls, outcome, hreviewed, hrun, hexits⟩ :=
      hcomplete.command args _ _ _ hparse (by decide)
    rw [hrun] at hstatus
    obtain ⟨d, rfl, hallowed⟩ := hexits.allowed.mp hstatus
    exact ⟨d, calls, outcome, hreviewed, hallowed, hrun, hstatus⟩
  · have hasks : Cli.AsksUpgrade ⟨"/", Text.maxWord⟩ "v11.3.0" "11.4" endless :=
      .line .attached (.apart rfl) (.apart rfl) .attached
    have hparsed := hcomplete.parsed _ _ _ _ hasks (by decide) (Nat.le_refl _) (by decide)
    exact hcomplete.aborted _ _ _ _ hparsed (by decide)

end Upgrade

end ClusterGate
