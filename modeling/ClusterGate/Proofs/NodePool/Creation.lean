import ClusterGate.Proofs.Engine.OneTable
import ClusterGate.Proofs.NodePool.Defaults
import ClusterGate.Proofs.NodePool.Verdict

/-!
# Creating a node pool

A call of the rules for a new pool, among whatever other calls: it is judged by one table, for which it
calls the inventory at most once, and its result is the verdict of this table.
Main statement: `Traffic.creation_judged`.
-/

namespace ClusterGate

namespace NodePool

open Engine

variable {α : Type} {p : NodePool} {table : RegionTable}

/-- The rules for a new pool, with a result of their own. -/
def creation (p : NodePool) (a : α) : Engine α := validateCreate p >>= fun _ => pure a

theorem creation_against {a : α} (hlocation : p.location ≠ "") (hsize : p.vmSize ≠ "") :
    (creation p a).against table = (fun _ => a) <$> verdict table p := by
  rw [creation, against_bind_eq, validateCreate_verdict hlocation hsize]
  cases verdict table p with
  | ok => rfl
  | error => rfl

theorem creation_restsOn {a : α} : (creation p a).RestsOn p.location :=
  validateCreate_restsOn.bind fun _ => .done _

/-- The first thing that is asked for is the region of the pool, and an error as the answer is the
result. -/
theorem creation_eq {a : α} (hlocation : p.location ≠ "") (hsize : p.vmSize ≠ "") :
    ∃ next, creation p a = .ask (.region p.location) next ∧
      ∀ error, next (.error error) = .done (.error error) := by
  have hrefusal : Sku.Inquiry.memory.refusal? p.location p.vmSize = none :=
    not_refused hlocation hsize nofun
  have hmemory : Sku.memoryOf p.location p.vmSize = _ := Sku.Inquiry.program_eq hrefusal
  rw [creation, validateCreate, checkInstanceType, hmemory]
  exact ⟨_, rfl, fun error => rfl⟩

end NodePool

namespace Traffic

open NodePool

variable {α : Type} {earlier later : List (Move α)} {p : NodePool} {a : α}

/-- What a call that begins after some moves is told later on. -/
def toldOf (earlier : List (Move α)) (program : Engine α) (later : List (Move α)) :
    List (Except GateError RegionTable) :=
  toldIn (after earlier).calls.length ((after earlier).step (.enter program)) later

/-- How often a call that begins after some moves calls the inventory later on. -/
def callsOf (earlier : List (Move α)) (program : Engine α) (later : List (Move α)) : Nat :=
  callsIn (after earlier).calls.length ((after earlier).step (.enter program)) later

/-- What may be relied on when a new pool is judged by a call that begins after some moves, whatever
other calls do and however interrupts and answers come. -/
structure Judged (earlier : List (Move α)) (p : NodePool) (a : α) : Prop where
  /-- All lookups of the call are told one and the same. -/
  one : ∀ later, ∀ first ∈ toldOf earlier (creation p a) later,
    ∀ second ∈ toldOf earlier (creation p a) later, first = second
  /-- The inventory is called at most once. -/
  frugal : ∀ later, callsOf earlier (creation p a) later ≤ 1
  /-- The table is that of a listing for the region of the pool. -/
  brought : ∀ later table, .ok table ∈ toldOf earlier (creation p a) later →
    (after (earlier ++ .enter (creation p a) :: later)).Brought p.location table
  /-- The result is the verdict of the table, or the error that came instead of a table. -/
  result : ∀ later result, resultOf? earlier (creation p a) later = some result →
    ∃ told ∈ toldOf earlier (creation p a) later,
      result = (fun _ => a) <$> (told >>= fun table => verdict table p)
  /-- Once a lookup is told something, nothing keeps the call from its result. -/
  ends : ∀ later, toldOf earlier (creation p a) later ≠ [] → ∃ k, ∀ more,
    k ≤ ownMoves earlier more →
    ∃ result, resultOf? earlier (creation p a) (later ++ more) = some result
  /-- If nobody waits for the region and the inventory answers with a listing, the verdict is that of
  the table which is there already or else of the listing. -/
  free : ∀ listing, (after earlier).cache.queue p.location = [] → ∃ k, ∀ n, k ≤ n →
    resultOf? earlier (creation p a)
        (List.replicate n (.go (after earlier).calls.length none (some (.ok listing)))) =
      some ((fun _ => a) <$> verdict
        (((after earlier).cache.stored? p.location).getD (RegionTable.ofListing listing)) p)

theorem judged_after (hlocation : p.location ≠ "") (hsize : p.vmSize ≠ "") :
    Judged earlier p a := by
  obtain ⟨next, hprogram, hfails⟩ := creation_eq (a := a) hlocation hsize
  have hrests : (Engine.ask (.region p.location) next).RestsOn p.location :=
    hprogram ▸ creation_restsOn
  have hverdict : ∀ table, (next (.ok table)).against table = (fun _ => a) <$> verdict table p := by
    intro table
    rw [← Engine.against_ask, ← hprogram]
    exact creation_against hlocation hsize
  have hentered : ((after earlier).step (.enter (creation p a))).progress?
      (after earlier).calls.length = some (.running (.ask (.region p.location) next)) := by
    rw [step, progress?_enter, if_pos rfl, hprogram]
  have hstep := step_step (after earlier) (.enter (creation p a))
  have horderly := (orderly_after earlier).step hstep
  have hsourced := (sourced_after earlier).step hstep
  -- the call begins by asking for its region, and the invariant holds from there on
  have hcourse : ∀ later, Course p.location next (after earlier).calls.length
      (after (earlier ++ .enter (creation p a) :: later)) (toldOf earlier (creation p a) later)
      (callsOf earlier (creation p a) later) := by
    intro later
    have h := (Course.asking hentered).run horderly hsourced hrests later
    rw [List.nil_append, Nat.zero_add] at h
    rw [after_append]
    exact h
  refine ⟨?one, ?frugal, ?brought, ?result, ?ends, ?free⟩
  case one => exact fun later first hfirst second hsecond => (hcourse later).same hfirst hsecond
  case frugal => exact fun later => (hcourse later).few
  case brought => exact fun later table htold => (hcourse later).brought (sourced_after _) htold
  case result =>
    intro later result hresult
    obtain ⟨told, hmem, rfl⟩ := (hcourse later).result hresult
    refine ⟨told, hmem, ?_⟩
    cases told with
    | error error =>
      rw [hfails]
      rfl
    | ok table => exact hverdict table
  case ends =>
    intro later htold
    obtain ⟨k, hends⟩ := (hcourse later).ends (orderly_after _) htold
    refine ⟨k, fun more henough => ?_⟩
    rw [resultOf?, ← List.cons_append, ← List.append_assoc, after_append]
    exact hends more henough
  case free =>
    intro listing hfree
    obtain ⟨k, hends⟩ := result?_of_free listing horderly hsourced hrests hentered hfree rfl
    refine ⟨k, fun n henough => ?_⟩
    rw [resultOf?, after_append, ← hverdict]
    exact hends n henough

/-- Whatever else goes on, a new pool with a location and a VM size is judged by one table, for which
the inventory is called at most once. It is accepted exactly if it is admissible by this table, and else
refused with the complaint of the first demand that it does not meet. An empty failure domain is none. -/
theorem creation_judged (earlier : List (Move α)) (p : NodePool) (a : α)
    (hlocation : p.location ≠ "") (hsize : p.vmSize ≠ "") :
    Judged earlier p a ∧
      (∀ table, verdict table p = .ok () ↔ Admissible table p) ∧
      (∀ table front d back, Demand.all = front ++ d :: back →
        (∀ e ∈ front, e.isMet table p = true) → d.isMet table p = false →
        verdict table p = .error (d.complaint table p)) ∧
      creation { p with failureDomain := some "" } a =
        creation { p with failureDomain := none } a := by
  refine ⟨judged_after hlocation hsize, fun _ => verdict_ok_iff, ?first, rfl⟩
  case first =>
    intro table front d back hall hfront hunmet
    exact verdict_of_first hall hfront hunmet

/-- A size with too little memory and cores that cannot be counted: the cores are the first complaint,
after two lookups and one call of the inventory. -/
theorem creation_judged_d2 :
    let listing : List Sku := [⟨"D2", ["1"], [⟨"MemoryGB", "8"⟩, ⟨"vCPUs", "two"⟩]⟩]
    let p : NodePool := { location := "westeurope", vmSize := "D2" }
    let later : List (Move Unit) := List.replicate 12 (.go 0 none (some (.ok listing)))
    (p.location ≠ "" ∧ p.vmSize ≠ "") ∧ Judged [] p () ∧
      (toldOf [] (creation p ()) later).length = 2 ∧ callsOf [] (creation p ()) later = 1 ∧
      resultOf? [] (creation p ()) later = some (.error (.invalidResponse "D2" "vCPUs" (some "two"))) ∧
      verdict (RegionTable.ofListing listing) p =
        .error (.invalidResponse "D2" "vCPUs" (some "two")) := by
  intro listing p later
  have hjudged := creation_judged [] p () (by decide) (by decide)
  refine ⟨by decide, hjudged.1, by decide +kernel, by decide +kernel, by decide +kernel, ?_⟩
  -- the third demand, behind two that are met
  exact hjudged.2.2.1 _ [.listed, .memoryNumber] .cpusNumber _ rfl (by decide +kernel) (by decide +kernel)

end Traffic

end ClusterGate
