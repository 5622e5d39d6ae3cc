import ClusterGate.Proofs.Sku.Provenance
import ClusterGate.Sku.Queries

/-!
# What calls are told

Every table that a program is told, unless it is empty, is the one that its region keeps. So a call is
always where its program gets with the tables of the cache. Main statement: `answered_after`.
-/

namespace ClusterGate

/-- A program gets somewhere when it is told results that are admitted. -/
inductive Engine.Follows {α : Type} (told : String → Except GateError RegionTable → Prop) :
    Engine α → Engine α → Prop where
  | refl (e : Engine α) : Follows told e e
  | note {n : Note} {e e' : Engine α} (rest : Follows told e e') : Follows told (.note n e) e'
  | answer {name : String} {result : Except GateError RegionTable}
      {next : Except GateError RegionTable → Engine α} {e : Engine α} (admitted : told name result)
      (rest : Follows told (next result) e) : Follows told (.ask (.region name) next) e

namespace Engine.Follows

variable {α : Type} {told told' : String → Except GateError RegionTable → Prop}
  {e e' e'' : Engine α}

theorem trans (h : Follows told e e') (h' : Follows told e' e'') : Follows told e e'' := by
  induction h with
  | refl => exact h'
  | note _ ih => exact .note (ih h')
  | answer admitted _ ih => exact .answer admitted (ih h')

theorem mono (himp : ∀ name result, told name result → told' name result)
    (h : Follows told e e') : Follows told' e e' := by
  induction h with
  | refl => exact .refl _
  | note _ ih => exact .note ih
  | answer admitted _ ih => exact .answer (himp _ _ admitted) ih

theorem eq_of_done {result : Except GateError α} (h : Follows told (.done result) e) :
    e = .done result := by
  cases h
  rfl

end Engine.Follows

namespace Traffic

open RegionCache

variable {α : Type} {s s' : Traffic α} {m : Move α} {id : LookupId} {region : String}
  {table : RegionTable}

/-- Where a call may stand, given the tables there are. -/
def Attained (c : RegionCache) (program : Engine α) : Progress α → Prop
  | .running e => program.Follows c.Vouches e
  | .looking name _ next => program.Follows c.Vouches (.ask (.region name) next)

/-- Every call stands where the tables can have led it. -/
def Answered (s : Traffic α) : Prop :=
  ∀ (id : LookupId) (call : Call α), s.calls[id]? = some call →
    Attained s.cache call.program call.progress

theorem Attained.mono {c c' : RegionCache} {program : Engine α} {p : Progress α}
    (hkept : ∀ region table, c.stored? region = some table → c'.stored? region = some table)
    (h : Attained c program p) : Attained c' program p := by
  have hvouches : ∀ name result, c.Vouches name result → c'.Vouches name result :=
    fun name result hc table hresult hne => hkept name table (hc table hresult hne)
  cases p with
  | running e => exact Engine.Follows.mono hvouches h
  | looking name stage next => exact Engine.Follows.mono hvouches h

theorem exists_call_of_progress? {p : Progress α} (here : s.progress? id = some p) :
    ∃ call, s.calls[id]? = some call ∧ call.progress = p :=
  Option.map_eq_some_iff.mp here

theorem Answered.resume {p q : Progress α} (h : Answered s) (here : s.progress? id = some p)
    (hcalls : s'.calls = (s.resume id q).calls)
    (hkept : ∀ region table, s.cache.stored? region = some table →
      s'.cache.stored? region = some table)
    (hq : ∀ program, Attained s.cache program p → Attained s'.cache program q) : Answered s' := by
  intro i call hcall
  obtain ⟨old, hold, hp⟩ := exists_call_of_progress? here
  rw [hcalls, Traffic.resume, List.getElem?_modify] at hcall
  by_cases hi : id = i
  · subst hi
    rw [hold] at hcall
    simp only [if_true, Option.map_eq_map, Option.map_some, Option.some.injEq] at hcall
    subst hcall
    exact hq old.program (hp ▸ h id old hold)
  · simp only [hi, if_false, Option.map_eq_map, Option.map_id'] at hcall
    exact (h i call hcall).mono hkept

theorem Answered.step (h : Answered s) (horderly : Orderly s) (hstep : Step s m s') :
    Answered s' := by
  have hkept : ∀ region table, s.cache.stored? region = some table →
      s'.cache.stored? region = some table := fun _ _ => horderly.stored_step hstep
  cases hstep with
  | idle => exact h
  | enter program =>
    intro i call hcall
    rw [List.getElem?_append] at hcall
    split at hcall
    · exact h i call hcall
    · rw [List.getElem?_singleton] at hcall
      split at hcall
      · cases hcall
        exact .refl program
      · contradiction
  | note here =>
    refine h.resume here rfl hkept fun program hp => ?_
    exact hp.trans (.note (.refl _))
  | ask here => exact h.resume here rfl hkept fun program hp => hp
  | @look id _ _ name stage stage' next cache notes here stepped =>
    refine h.resume here rfl hkept fun program hp => ?_
    have hp := hp.mono hkept
    cases stage' with
    | done result =>
      have hvouches := (transition_of_step stepped).vouches
      exact Engine.Follows.trans hp (.answer hvouches (.refl _))
    | _ => exact hp

theorem Answered.run (h : Answered s) (horderly : Orderly s) (moves : List (Move α)) :
    Answered (s.run moves) := by
  have hboth := run_induction (P := fun s : Traffic α => Orderly s ∧ Answered s)
    (fun _ _ _ hboth hstep => ⟨hboth.1.step hstep, hboth.2.step hboth.1 hstep⟩)
    moves ⟨horderly, h⟩
  exact hboth.2

theorem answered_after (moves : List (Move α)) : Answered (after moves) :=
  Answered.run (fun _ _ h => by simp at h) orderly_empty moves

theorem Answered.attained {program : Engine α} {p : Progress α} (h : Answered s)
    (here : s.progress? id = some p) (hprogram : s.program? id = some program) :
    Attained s.cache program p := by
  obtain ⟨call, hcall, rfl⟩ := exists_call_of_progress? here
  rw [program?, hcall] at hprogram
  rw [← Option.some.inj hprogram]
  exact h id call hcall

/-- A call that has ended was told what led its program there. -/
theorem follows_of_result {program : Engine α} {result : Except GateError α} (h : Answered s)
    (hprogram : s.program? id = some program) (hresult : s.result? id = some result) :
    program.Follows s.cache.Vouches (.done result) := by
  obtain ⟨p, here, hp⟩ := Option.bind_eq_some_iff.mp hresult
  have hattained := h.attained here hprogram
  cases p with
  | looking name stage next => cases hp
  | running e =>
    cases e with
    | done =>
      cases hp
      exact hattained
    | note n next => cases hp
    | ask q next => cases hp

end Traffic

end ClusterGate
