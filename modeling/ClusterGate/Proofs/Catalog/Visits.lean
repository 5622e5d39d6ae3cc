import ClusterGate.Engine
import ClusterGate.Session.Backends
import Mathlib.Data.List.Induction

/-!
# Many visits to one catalog

Any number of programs put their questions to one catalog: they list its releases or read the
components of one, and share the memo. In each turn a new visit begins or one is looked at, under
whatever interrupt and with whatever answer of the store the look brings. So a list of turns is an
interleaving, and no interleaving is left out; a visit that is given up is not looked at any more.

Main statements: `Visits.visit?_go`, what a turn does to the visits, and `Visits.every_visit`, what
is kept by each look holds of every visit.
-/

namespace ClusterGate

/-- The notes that a program leaves before its first question or its end. -/
def Engine.leading {α : Type} : Engine α → List Note
  | .note n next => n :: next.leading
  | _ => []

namespace Catalog

open Session (StoreCall)

/-- What a look brings: what interrupts, and the answers of the store that are there. -/
structure Look where
  interrupt : Option Interrupt := none
  record : Option (Except StorageError (Option Record)) := none
  records : Option (Except StorageError (List Record)) := none

/-- Where a visit stands: at its end, or at a question to the catalog. -/
inductive Standing (α : Type) where
  | ended (result : Except GateError α)
  | reading (release : String) (stage : Reading) (next : Except GateError Components → Engine α)
  | listing (stage : CatalogListing) (next : Except GateError (List Record) → Engine α)
  /-- At a question that is not for the catalog. -/
  | elsewhere

/-- Where a program stands once it has left its notes. -/
def Standing.ofEngine {α : Type} : Engine α → Standing α
  | .done result => .ended result
  | .note _ next => ofEngine next
  | .ask (.components release) next => .reading release .checking next
  | .ask .releases next => .listing (.listing false) next
  | .ask (.region _) _ => .elsewhere

def Standing.result? {α : Type} : Standing α → Option (Except GateError α)
  | .ended result => some result
  | _ => none

/-- What comes of a look. -/
structure Outcome (α : Type) where
  memo : ComponentMemo
  standing : Standing α
  calls : List StoreCall := []
  notes : List Note := []

/-- A program goes on with the answer to its question. -/
def Outcome.answered {α : Type} (memo : ComponentMemo) (program : Engine α) : Outcome α :=
  ⟨memo, .ofEngine program, [], program.leading⟩

/-- The call of the store by which a reading comes to a stage. -/
def callAt (release : String) : Reading → List StoreCall
  | .reading true => [.get releaseKind release]
  | _ => []

/-- A reading comes to a stage; its result is given to the program. -/
def Outcome.ofReading {α : Type} (memo : ComponentMemo) (release : String)
    (next : Except GateError Components → Engine α) : Reading → Outcome α
  | .done result => .answered memo (next result)
  | stage => ⟨memo, .reading release stage next, callAt release stage, []⟩

/-- A look at a visit. One that has to wait, or is at its end, stays where it is. -/
def Standing.look {α : Type} (memo : ComponentMemo) (l : Look) : Standing α → Outcome α
  | .reading release stage next => match memo.step release l.interrupt l.record stage with
    | none => ⟨memo, .reading release stage next, [], []⟩
    | some (memo, stage) => .ofReading memo release next stage
  | .listing stage next => match stage.step l.interrupt l.records with
    | none => ⟨memo, .listing stage next, [], []⟩
    | some (.done result) => .answered memo (next result)
    | some stage => ⟨memo, .listing stage next, [.list releaseKind], []⟩
  | .ended result => ⟨memo, .ended result, [], []⟩
  | .elsewhere => ⟨memo, .elsewhere, [], []⟩

/-- A visit: its program, where that stands, all looks at it, the calls of the store that it made and
the notes that it left, oldest first. -/
structure Visit (α : Type) where
  program : Engine α
  standing : Standing α
  looks : List Look := []
  calls : List StoreCall := []
  notes : List Note := []

namespace Visit

variable {α : Type}

def ofEngine (program : Engine α) : Visit α :=
  { program := program, standing := .ofEngine program, notes := program.leading }

def result? (v : Visit α) : Option (Except GateError α) := v.standing.result?

def looked (v : Visit α) (memo : ComponentMemo) (l : Look) : Visit α :=
  { v with
    standing := (v.standing.look memo l).standing
    looks := v.looks ++ [l]
    calls := v.calls ++ (v.standing.look memo l).calls
    notes := v.notes ++ (v.standing.look memo l).notes }

end Visit

/-- The memo, all notes left so far, oldest first, and all visits. The number of a visit is its
place. -/
structure Visits (α : Type) where
  memo : ComponentMemo := []
  noted : List Note := []
  visits : List (Visit α) := []

/-- A visit begins, or one is looked at. -/
inductive Turn (α : Type) where
  | enter (program : Engine α)
  | go (id : Nat) (look : Look)

namespace Visits

variable {α : Type}

def visit? (s : Visits α) (id : Nat) : Option (Visit α) := s.visits[id]?

def ledger (s : Visits α) : Ledger := ({} : Ledger).notes s.noted

def step (s : Visits α) : Turn α → Visits α
  | .enter program =>
    { s with noted := s.noted ++ program.leading, visits := s.visits ++ [.ofEngine program] }
  | .go id l => match s.visit? id with
    | none => s
    | some v =>
      { memo := (v.standing.look s.memo l).memo
        noted := s.noted ++ (v.standing.look s.memo l).notes
        visits := s.visits.set id (v.looked s.memo l) }

def run (s : Visits α) (turns : List (Turn α)) : Visits α := turns.foldl step s

/-- What has become of nothing after several turns. -/
def after (turns : List (Turn α)) : Visits α := ({} : Visits α).run turns

variable {s : Visits α} {id i : Nat} {l : Look} {v : Visit α} {program : Engine α}

theorem after_concat (turns : List (Turn α)) (t : Turn α) :
    after (turns ++ [t]) = (after turns).step t := by
  rw [after, run, List.foldl_append]
  rfl

theorem after_append (earlier later : List (Turn α)) :
    after (earlier ++ later) = (after earlier).run later := List.foldl_append

/-- What holds at the beginning and is kept by each turn holds after any turns. -/
theorem run_induction {P : Visits α → Prop} (hkeep : ∀ s t, P s → P (s.step t))
    (turns : List (Turn α)) (h : P s) : P (s.run turns) := by
  induction turns generalizing s with
  | nil => exact h
  | cons t rest ih => exact ih (hkeep s t h)

/-! ### What a turn does -/

theorem visit?_enter (program : Engine α) :
    (s.step (.enter program)).visit? i =
      if i = s.visits.length then some (.ofEngine program) else s.visit? i := by
  rw [step, visit?, visit?]
  rcases Nat.lt_trichotomy i s.visits.length with hlt | heq | hgt
  · rw [List.getElem?_append_left hlt, if_neg (Nat.ne_of_lt hlt)]
  · rw [if_pos heq, heq, List.getElem?_concat_length]
  · rw [if_neg (Nat.ne_of_gt hgt), List.getElem?_eq_none (Nat.le_of_lt hgt),
      List.getElem?_eq_none (by simpa using Nat.succ_le_of_lt hgt)]

theorem visit?_go (h : s.visit? id = some v) (l : Look) :
    (s.step (.go id l)).visit? i =
      if i = id then some (v.looked s.memo l) else s.visit? i := by
  have hlt : id < s.visits.length := (List.getElem?_eq_some_iff.mp h).1
  simp only [step, h]
  rw [visit?, visit?, List.getElem?_set]
  by_cases hi : i = id
  · rw [if_pos hi.symm, if_pos hi, if_pos (hi ▸ hlt)]
  · rw [if_neg (Ne.symm hi), if_neg hi]

theorem step_go_of_none (h : s.visit? id = none) (l : Look) : s.step (.go id l) = s := by
  simp only [step, h]

theorem memo_go (h : s.visit? id = some v) (l : Look) :
    (s.step (.go id l)).memo = (v.standing.look s.memo l).memo := by
  simp only [step, h]

/-- A turn leaves a visit as it is, or is a look at it, or its beginning. -/
theorem visit_cases {t : Turn α} (h : (s.step t).visit? id = some v) :
    s.visit? id = some v ∨ (∃ program, t = .enter program ∧ v = .ofEngine program) ∨
      ∃ l w, t = .go id l ∧ s.visit? id = some w ∧ v = w.looked s.memo l := by
  cases t with
  | enter program =>
    rw [visit?_enter] at h
    split at h
    next => exact Or.inr (Or.inl ⟨program, rfl, (Option.some.inj h).symm⟩)
    next => exact Or.inl h
  | go i l =>
    cases hi : s.visit? i with
    | none =>
      rw [step_go_of_none hi] at h
      exact Or.inl h
    | some w =>
      rw [visit?_go hi] at h
      split at h
      next heq =>
        subst heq
        exact Or.inr (Or.inr ⟨l, w, rfl, hi, (Option.some.inj h).symm⟩)
      next => exact Or.inl h

/-- What is there when a visit begins and is kept by each look, whatever is remembered, holds of every
visit. -/
theorem every_visit {P : Visit α → Prop} (hbegin : ∀ program, P (.ofEngine program))
    (hlook : ∀ v memo l, P v → P (v.looked memo l)) (turns : List (Turn α)) :
    ∀ id v, (after turns).visit? id = some v → P v := by
  refine run_induction (P := fun s => ∀ id v, s.visit? id = some v → P v) ?_ turns ?_
  · intro s t h id v hv
    rcases visit_cases hv with hv | ⟨program, -, rfl⟩ | ⟨l, w, -, hw, rfl⟩
    · exact h id v hv
    · exact hbegin program
    · exact hlook w s.memo l (h id w hw)
  · intro id v hv
    cases hv

/-- What is there when a program begins and is kept by each look holds of every visit of the
program. -/
theorem visit_of_program {Q : Visit α → Prop} (hbegin : Q (.ofEngine program))
    (hlook : ∀ v memo l, Q v → Q (v.looked memo l)) {turns : List (Turn α)}
    (hv : (after turns).visit? id = some v) (hprogram : v.program = program) : Q v := by
  refine every_visit (P := fun v => v.program = program → Q v) ?_ ?_ turns id v hv hprogram
  · rintro _ rfl
    exact hbegin
  · exact fun v memo l h hv => hlook v memo l (h hv)

theorem entered (turns : List (Turn α)) (h : (after turns).visit? id = some v) :
    .enter v.program ∈ turns := by
  induction turns using List.reverseRecOn generalizing v with
  | nil => cases h
  | append_singleton turns t ih =>
    rw [after_concat] at h
    rcases visit_cases h with h | ⟨program, rfl, rfl⟩ | ⟨l, w, rfl, hw, rfl⟩
    · exact List.mem_append_left _ (ih h)
    · exact List.mem_append_right _ List.mem_cons_self
    · have hentered : .enter w.program ∈ turns := ih hw
      exact List.mem_append_left _ hentered

theorem visit_step (h : s.visit? id = some v) (t : Turn α) :
    (s.step t).visit? id = some v ∨ ∃ l, (s.step t).visit? id = some (v.looked s.memo l) := by
  cases t with
  | enter program =>
    have hlt : id < s.visits.length := (List.getElem?_eq_some_iff.mp h).1
    rw [visit?_enter, if_neg (Nat.ne_of_lt hlt)]
    exact Or.inl h
  | go i l =>
    cases hi : s.visit? i with
    | none =>
      rw [step_go_of_none hi]
      exact Or.inl h
    | some w =>
      rw [visit?_go hi]
      by_cases heq : id = i
      · subst heq
        rw [h] at hi
        cases hi
        exact Or.inr ⟨l, if_pos rfl⟩
      · rw [if_neg heq]
        exact Or.inl h

/-- What is kept by each look at a visit is kept by any turns. -/
theorem visit_run {P : Visit α → Prop} (hlook : ∀ v memo l, P v → P (v.looked memo l))
    (h : s.visit? id = some v) (hv : P v) (turns : List (Turn α)) :
    ∃ w, (s.run turns).visit? id = some w ∧ P w := by
  refine run_induction (P := fun s => ∃ w, s.visit? id = some w ∧ P w) ?_ turns ⟨v, h, hv⟩
  rintro s t ⟨w, hw, hP⟩
  rcases visit_step hw t with hsame | ⟨l, hlooked⟩
  · exact ⟨w, hsame, hP⟩
  · exact ⟨_, hlooked, hlook w s.memo l hP⟩

/-- A visit at its end has its result for good, and calls the store no more. -/
theorem ended_run {result : Except GateError α} (h : s.visit? id = some v)
    (hended : v.standing = .ended result) (turns : List (Turn α)) :
    ∃ w, (s.run turns).visit? id = some w ∧ w.standing = .ended result ∧ w.calls = v.calls := by
  refine visit_run (P := fun w => w.standing = .ended result ∧ w.calls = v.calls) ?_ h
    ⟨hended, rfl⟩ turns
  rintro w memo l ⟨hstanding, hcalls⟩
  simp only [Visit.looked, hstanding, Standing.look, List.append_nil]
  exact ⟨trivial, hcalls⟩

theorem program_run (h : s.visit? id = some v) (turns : List (Turn α)) :
    ∃ w, (s.run turns).visit? id = some w ∧ w.program = v.program :=
  visit_run (P := fun w => w.program = v.program) (fun _ _ _ hw => hw) h rfl turns

/-! ### All notes -/

theorem noted_perm_step (h : s.noted.Perm (s.visits.flatMap Visit.notes)) (t : Turn α) :
    (s.step t).noted.Perm ((s.step t).visits.flatMap Visit.notes) := by
  cases t with
  | enter program =>
    rw [step, List.flatMap_append, List.flatMap_singleton]
    exact h.append_right _
  | go id l =>
    cases hv : s.visit? id with
    | none =>
      rw [step_go_of_none hv]
      exact h
    | some v =>
      obtain ⟨hlt, rfl⟩ := List.getElem?_eq_some_iff.mp hv
      obtain ⟨front, back, hvisits, -, hset⟩ :=
        @List.exists_of_set _ id (s.visits[id].looked s.memo l) s.visits hlt
      simp only [step, hv]
      generalize s.visits[id] = v at hvisits hset ⊢
      rw [hvisits, List.flatMap_append, List.flatMap_cons] at h
      rw [hset, List.flatMap_append, List.flatMap_cons, Visit.looked]
      -- the new notes come last of all here, and last of this visit there
      refine (h.append_right _).trans ?_
      rw [List.append_assoc, List.append_assoc, List.append_assoc]
      exact (List.perm_append_comm.append_left _).append_left _

/-- The notes of all are those of each. -/
theorem noted_perm (turns : List (Turn α)) :
    (after turns).noted.Perm ((after turns).visits.flatMap Visit.notes) :=
  run_induction (P := fun s => s.noted.Perm (s.visits.flatMap Visit.notes))
    (fun _ t h => noted_perm_step h t) turns (List.Perm.refl _)

end Visits

end Catalog

end ClusterGate
