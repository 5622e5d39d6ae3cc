import ClusterGate.Session.Activity
import ClusterGate.Proofs.Catalog.Visits

/-!
# Sessions visit the catalog

A session runs a program until it has to wait, and polls it when something may have come. For a
program that asks the catalog alone, both are looks at a visit: what holds of every visit holds of
the calls of a session. Main statements: `Activity.drive_visited`, `Activity.pollAsking_visited`.
-/

namespace ClusterGate

/-- The program asks for releases and components alone. -/
inductive Engine.AsksCatalog {α : Type} : Engine α → Prop where
  | done (result : Except GateError α) : AsksCatalog (.done result)
  | note {n : Note} {e : Engine α} (rest : AsksCatalog e) : AsksCatalog (.note n e)
  | components {release : String} {next : Except GateError Components → Engine α}
      (rest : ∀ r, AsksCatalog (next r)) : AsksCatalog (.ask (.components release) next)
  | releases {next : Except GateError (List Record) → Engine α}
      (rest : ∀ r, AsksCatalog (next r)) : AsksCatalog (.ask .releases next)

namespace Catalog

variable {α : Type} {memo memo' memo'' : ComponentMemo} {a b d : Standing α}
  {notes more : List Note}

/-- Some looks take a visit from one standing to another, and leave notes. -/
inductive Looks : ComponentMemo → Standing α → List Note → ComponentMemo → Standing α → Prop where
  | none {memo : ComponentMemo} {a : Standing α} : Looks memo a [] memo a
  | more {memo memo' : ComponentMemo} {a b : Standing α} {notes : List Note} (l : Look)
      (rest : Looks (a.look memo l).memo (a.look memo l).standing notes memo' b) :
      Looks memo a ((a.look memo l).notes ++ notes) memo' b

theorem Looks.one {o : Outcome α} {l : Look} (h : a.look memo l = o) :
    Looks memo a o.notes o.memo o.standing := by
  subst h
  have hlook : Looks memo a ((a.look memo l).notes ++ []) (a.look memo l).memo
      (a.look memo l).standing := .more l .none
  rwa [List.append_nil] at hlook

theorem Looks.trans (h : Looks memo a notes memo' b) (hmore : Looks memo' b more memo'' d) :
    Looks memo a (notes ++ more) memo'' d := by
  induction h with
  | none => exact hmore
  | more l _ ih =>
    rw [List.append_assoc]
    exact .more l (ih hmore)

end Catalog

namespace Session

open Catalog

namespace Wait

variable {w w' : World} {c : Context} {release : String} {fuel : Nat}

/-- Where a visit stands whose session waits. -/
def standing {α : Type} : {q : Query} → Wait q → (Except GateError q.Answer → Engine α) → Standing α
  | _, .region .., _ => .elsewhere
  | _, .components _ (.done r) _, next => .ofEngine (next r)
  | _, .components release stage _, next => .reading release stage next
  | _, .releases (.done r) _, next => .ofEngine (next r)
  | _, .releases stage _, next => .listing stage next

/-- The notes that the program leaves when the answer is there. -/
def answerNotes {α : Type} {q : Query} (wait : Wait q)
    (next : Except GateError q.Answer → Engine α) : List Note :=
  match wait.result? with
  | some r => (next r).leading
  | none => []

theorem look_components {α : Type} {stage : Reading} {flight : Option (Flight StorageError)}
    {wait : Wait (.components release)} (next : Except GateError Components → Engine α)
    (h : (Wait.components release stage flight).step w c = some (wait, w')) :
    w'.ledger = w.ledger ∧ ∃ l calls,
      ((Wait.components release stage flight).standing next).look w.memo l =
        ⟨w'.memo, wait.standing next, calls, wait.answerNotes next⟩ := by
  have hstanding : (Wait.components release stage flight).standing next =
      .reading release stage next := by
    cases stage with
    | done => cases h
    | checking | reading | decoded => rfl
  rw [hstanding]
  simp only [step] at h
  split at h
  next => cases h
  next memo stage' hstep =>
    have hlook : ∀ {o : Outcome α}, Outcome.ofReading memo release next stage' = o →
        ∃ l, (Standing.reading release stage next).look w.memo l = o := by
      rintro _ rfl
      refine ⟨⟨w.interrupt? c, flight.bind fun f =>
        if f.readyAt ≤ w.fired then some (w.store.got f releaseKind release) else none, none⟩, ?_⟩
      rw [Standing.look, hstep]
    split at h
    next =>
      cases h
      obtain ⟨l, hl⟩ := hlook rfl
      exact ⟨rfl, l, _, hl⟩
    next =>
      cases h
      obtain ⟨l, hl⟩ := hlook rfl
      refine ⟨rfl, l, (Outcome.ofReading memo release next stage').calls, hl.trans ?_⟩
      cases stage' <;> rfl

theorem look_releases {α : Type} {stage : CatalogListing} {flight : Option (Flight StorageError)}
    {wait : Wait .releases} (next : Except GateError (List Record) → Engine α)
    (h : (Wait.releases stage flight).step w c = some (wait, w')) :
    w'.ledger = w.ledger ∧ ∃ l calls,
      ((Wait.releases stage flight).standing next).look w.memo l =
        ⟨w'.memo, wait.standing next, calls, wait.answerNotes next⟩ := by
  have hstanding : (Wait.releases stage flight).standing next = .listing stage next := by
    cases stage with
    | done => cases h
    | listing => rfl
  rw [hstanding]
  simp only [step] at h
  split at h
  next => cases h
  next stage' hstep =>
    have hlook : ∃ l calls, (Standing.listing stage next).look w.memo l =
        ⟨w.memo, (Wait.releases stage' none).standing next, calls,
          (Wait.releases stage' none).answerNotes next⟩ := by
      refine ⟨⟨w.interrupt? c, none, flight.bind fun f =>
        if f.readyAt ≤ w.fired then some (w.store.listed f releaseKind) else none⟩, ?_⟩
      rw [Standing.look, hstep]
      cases stage' with
      | done r => exact ⟨[], rfl⟩
      | listing called => exact ⟨_, rfl⟩
    obtain ⟨l, calls, hl⟩ := hlook
    split at h
    next =>
      cases h
      exact ⟨rfl, l, calls, hl⟩
    next =>
      cases h
      exact ⟨rfl, l, calls, hl⟩

variable {α : Type} {q : Query} {wait wait' : Wait q}
  {next : Except GateError q.Answer → Engine α}

theorem look_of_step (hq : ∀ name, q ≠ .region name) (next : Except GateError q.Answer → Engine α)
    (h : wait.step w c = some (wait', w')) :
    w'.ledger = w.ledger ∧ ∃ l calls, (wait.standing next).look w.memo l =
      ⟨w'.memo, wait'.standing next, calls, wait'.answerNotes next⟩ := by
  cases wait with
  | region => exact absurd rfl (hq _)
  | components => exact look_components next h
  | releases => exact look_releases next h

theorem step_of_result {r : Except GateError q.Answer} (h : wait.result? = some r) :
    wait.step w c = none := by
  cases wait with
  | region name id stage flight => cases stage <;> cases h; rfl
  | components release stage flight => cases stage <;> cases h; rfl
  | releases stage flight => cases stage <;> cases h; rfl

theorem settle_of_stuck (h : wait.step w c = none) : wait.settle c fuel w = (wait, w) := by
  cases fuel with
  | zero => rfl
  | succ fuel => rw [settle, h]

theorem settle_looks (hq : ∀ name, q ≠ .region name) (next : Except GateError q.Answer → Engine α)
    (hpending : wait.result? = none) (c : Context) (fuel : Nat) (w : World) :
    (wait.settle c fuel w).2.ledger = w.ledger ∧
      Looks w.memo (wait.standing next) ((wait.settle c fuel w).1.answerNotes next)
        (wait.settle c fuel w).2.memo ((wait.settle c fuel w).1.standing next) := by
  induction fuel generalizing wait w with
  | zero =>
    rw [settle, answerNotes, hpending]
    exact ⟨rfl, .none⟩
  | succ fuel ih =>
    rw [settle]
    split
    next =>
      rw [answerNotes, hpending]
      exact ⟨rfl, .none⟩
    next wait' w' hstep =>
      obtain ⟨hledger, l, calls, hlook⟩ := look_of_step hq next hstep
      have hone := Looks.one hlook
      cases hresult : wait'.result? with
      -- a wait with its answer does not step again, so the notes of the answer are left once
      | some r =>
        rw [settle_of_stuck (step_of_result hresult)]
        exact ⟨hledger, hone⟩
      | none =>
        obtain ⟨hsettled, hrest⟩ := ih hresult w'
        have hnotes : wait'.answerNotes next = [] := by
          rw [answerNotes, hresult]
        simp only [hnotes] at hone
        exact ⟨hsettled.trans hledger, hone.trans hrest⟩

theorem standing_of_result (hq : ∀ name, q ≠ .region name) {r : Except GateError q.Answer}
    (h : wait.result? = some r) : wait.standing next = .ofEngine (next r) := by
  cases wait with
  | region => exact absurd rfl (hq _)
  | components release stage flight => cases stage <;> cases h; rfl
  | releases stage flight => cases stage <;> cases h; rfl

end Wait

namespace Activity

variable {w : World} {c : Context} {e : Engine Reply} {q : Query} {wait : Wait q}
  {next : Except GateError q.Answer → Engine Reply}

/-- Where a visit stands that a session makes by an activity. -/
def standing : Activity → Standing Reply
  | .finished (.ok r) => .ended (.ok r)
  | .finished (.error (.gate e)) => .ended (.error e)
  | .asking _ _ wait next => wait.standing next
  | _ => .elsewhere

/-- What a session does with a program is some looks at its visit; the session keeps the notes. -/
def Visited (w : World) (a : Standing Reply) (before : List Note) (now : Activity × World) : Prop :=
  ∃ notes, Looks w.memo a notes now.2.memo now.1.standing ∧
    now.2.ledger = w.ledger.notes (before ++ notes)

/-- What becomes of a visit that waits, once its session has moved the wait on. -/
def resumed (c : Context) (q : Query) (next : Except GateError q.Answer → Engine Reply)
    (settled : Wait q × World) : Activity × World :=
  match settled.1.result? with
  | some r => drive c (next r) settled.2
  | none => (.asking c q settled.1 next, settled.2)

theorem drive_ask (c : Context) (q : Query) (next : Except GateError q.Answer → Engine Reply)
    (w : World) :
    drive c (.ask q next) w =
      resumed c q next ((Wait.start w q).1.settle c Wait.maxSteps (Wait.start w q).2) := by
  rw [drive]
  rfl

theorem resumed_visited (wait : Wait q) (hq : ∀ name, q ≠ .region name)
    (hpending : wait.result? = none) (fuel : Nat)
    (hnext : ∀ r w, Visited w (.ofEngine (next r)) (next r).leading (drive c (next r) w)) :
    Visited w (wait.standing next) [] (resumed c q next (wait.settle c fuel w)) := by
  obtain ⟨hledger, hlooks⟩ := Wait.settle_looks hq next hpending c fuel w
  generalize wait.settle c fuel w = settled at hledger hlooks ⊢
  obtain ⟨wait', w'⟩ := settled
  rw [resumed]
  cases hresult : wait'.result? with
  | some r =>
    obtain ⟨notes, hrest, hkept⟩ := hnext r w'
    have hnotes : wait'.answerNotes next = (next r).leading := by
      rw [Wait.answerNotes, hresult]
    rw [Wait.standing_of_result hq hresult, hnotes] at hlooks
    refine ⟨(next r).leading ++ notes, hlooks.trans hrest, ?_⟩
    rw [hkept, hledger, List.nil_append]
  | none =>
    have hnotes : wait'.answerNotes next = [] := by
      rw [Wait.answerNotes, hresult]
    rw [hnotes] at hlooks
    exact ⟨[], hlooks, hledger⟩

/-- Running a program on is looking at its visit. -/
theorem drive_visited (h : e.AsksCatalog) (c : Context) (w : World) :
    Visited w (.ofEngine e) e.leading (drive c e w) := by
  induction h generalizing w with
  | done result => cases result <;> exact ⟨[], .none, rfl⟩
  | note _ ih =>
    obtain ⟨notes, hlooks, hkept⟩ := ih (w.notes [_])
    exact ⟨notes, hlooks, hkept⟩
  | @components release next _ ih =>
    rw [drive_ask]
    exact resumed_visited (.components release .checking none) nofun rfl Wait.maxSteps ih
  | releases _ ih =>
    rw [drive_ask]
    exact resumed_visited (.releases (.listing false) none) nofun rfl Wait.maxSteps ih

theorem pollAsking_eq (hpending : wait.result? = none) (c : Context) (w : World) :
    ((pollAsking c q wait next w).1, (pollAsking c q wait next w).2.1) =
      resumed c q next (wait.settle c (Wait.maxSteps + 1) w) := by
  rw [pollAsking, Wait.settle]
  cases wait.step w c with
  | none => rw [resumed, hpending]
  | some moved =>
    obtain ⟨wait', w'⟩ := moved
    simp only [resumed]
    cases (wait'.settle c Wait.maxSteps w').1.result? <;> rfl

/-- Polling a program that waits is looking at its visit. -/
theorem pollAsking_visited (hq : ∀ name, q ≠ .region name) (hpending : wait.result? = none)
    (hnext : ∀ r, (next r).AsksCatalog) (c : Context) (w : World) :
    Visited w (wait.standing next) []
      ((pollAsking c q wait next w).1, (pollAsking c q wait next w).2.1) := by
  rw [pollAsking_eq hpending]
  exact resumed_visited wait hq hpending _ fun r w => drive_visited (hnext r) c w

end Activity

end Session

end ClusterGate
