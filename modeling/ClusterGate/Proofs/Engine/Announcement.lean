import ClusterGate.Proofs.Sku.Queries

/-!
# Notes that only a success leaves

A program may keep notes of some kind back until nothing can fail any more. Then a call that ends with
an error leaves none of them, however it is interleaved with others.
Main statement: `Traffic.withheld_of_error`.
-/

namespace ClusterGate

namespace Engine

variable {α β : Type} {told : String → Except GateError RegionTable → Prop} {P : Note → Bool}
  {e e' : Engine α}

/-- The program leaves notes and then ends with a result. -/
inductive Certain : Engine α → Prop where
  | done (a : α) : Certain (.done (.ok a))
  | note {n : Note} {e : Engine α} (rest : Certain e) : Certain (.note n e)

/-- The program leaves a note of the kind only when it is certain to end with a result. -/
inductive Withholds (P : Note → Bool) : Engine α → Prop where
  | done (result : Except GateError α) : Withholds P (.done result)
  | note {n : Note} {e : Engine α} (last : P n = true → e.Certain) (rest : Withholds P e) :
      Withholds P (.note n e)
  | ask {name : String} {next : Except GateError RegionTable → Engine α}
      (rest : ∀ result, Withholds P (next result)) : Withholds P (.ask (.region name) next)

/-- The program leaves no notes at all. -/
inductive Silent : Engine α → Prop where
  | done (result : Except GateError α) : Silent (.done result)
  | ask {name : String} {next : Except GateError RegionTable → Engine α}
      (rest : ∀ result, Silent (next result)) : Silent (.ask (.region name) next)

theorem Silent.bind {f : α → Engine β} (h : e.Silent) (hf : ∀ a, (f a).Silent) :
    (e >>= f).Silent := by
  induction h with
  | done result =>
    cases result with
    | error => exact .done _
    | ok a => exact hf a
  | ask _ ih => exact .ask ih

theorem Silent.withholds_bind {f : α → Engine β} (h : e.Silent) (hf : ∀ a, (f a).Withholds P) :
    (e >>= f).Withholds P := by
  induction h with
  | done result =>
    cases result with
    | error => exact .done _
    | ok a => exact hf a
  | ask _ ih => exact .ask ih

theorem Certain.bind_pure {f : α → β} (h : e.Certain) : (e >>= fun a => pure (f a)).Certain := by
  induction h with
  | done a => exact .done (f a)
  | note _ ih => exact .note ih

theorem Withholds.bind_pure {f : α → β} (h : e.Withholds P) :
    (e >>= fun a => pure (f a)).Withholds P := by
  induction h with
  | done result => cases result <;> exact .done _
  | note last _ ih => exact .note (fun hn => (last hn).bind_pure) ih
  | ask _ ih => exact .ask ih

theorem Certain.withholds (h : e.Certain) : e.Withholds P := by
  induction h with
  | done a => exact .done _
  | note rest ih => exact .note (fun _ => rest) ih

theorem notes_certain {a : α} (ns : List Note) : (notes ns >>= fun _ => pure a).Certain := by
  induction ns with
  | nil => exact .done a
  | cons n rest ih => exact .note ih

theorem Withholds.follows (h : e.Withholds P) (hfollows : e.Follows told e') : e'.Withholds P := by
  induction hfollows with
  | refl => exact h
  | note _ ih =>
    cases h with
    | note _ rest => exact ih rest
  | answer _ _ ih =>
    cases h with
    | ask rest => exact ih (rest _)

end Engine

namespace Traffic

open RegionCache

variable {α : Type} {s : Traffic α} {id i : LookupId} {P : Note → Bool} {program : Engine α}
  {moves earlier later : List (Move α)}

theorem attained_of_call {p : Progress α} (here : (after moves).progress? id = some p)
    (hcall : (after moves).program? id = some program) : Attained (after moves).cache program p :=
  (answered_after moves).attained here hcall

theorem attained_of_progress? {p : Progress α} (here : (after earlier).progress? id = some p)
    (hcall : (after (earlier ++ later)).program? id = some program) :
    Attained (after earlier).cache program p := by
  obtain ⟨call, hcalls, -⟩ := exists_call_of_progress? here
  have hbefore : (after earlier).program? id = some call.program := by
    rw [program?, hcalls]
    rfl
  rw [after_append, program?_run hbefore later] at hcall
  exact attained_of_call here (hbefore.trans hcall)

theorem certain_run {e : Engine α} (hcertain : e.Certain) (here : s.progress? id = some (.running e))
    (moves : List (Move α)) :
    ∃ e', (s.run moves).progress? id = some (.running e') ∧ e'.Certain := by
  refine run_induction (P := fun s => ∃ e', s.progress? id = some (.running e') ∧ e'.Certain)
    (fun s m s' h hstep => ?_) moves ⟨e, here, hcertain⟩
  obtain ⟨e, here, hcertain⟩ := h
  cases hother : m.isOf id with
  | false => exact ⟨e, progress?_of_step hstep hother here, hcertain⟩
  | true =>
    cases hstep with
    | idle => exact ⟨e, here, hcertain⟩
    | enter program => cases hother
    | note there =>
      obtain rfl := beq_iff_eq.mp hother
      rw [here] at there
      cases there
      cases hcertain with
      | note rest =>
        refine ⟨_, ?_, rest⟩
        rw [progress?_resume, if_pos rfl]
        exact congrArg _ here
    | ask there =>
      rw [beq_iff_eq.mp hother, here] at there
      cases there
      cases hcertain
    | look there =>
      rw [beq_iff_eq.mp hother, here] at there
      cases there

theorem result?_ne_error_of_certain {e : Engine α} {error : GateError} (hcertain : e.Certain)
    (here : s.progress? id = some (.running e)) (moves : List (Move α)) :
    (s.run moves).result? id ≠ some (.error error) := by
  intro hresult
  obtain ⟨e', here', hcertain'⟩ := certain_run hcertain here moves
  rw [result?, here'] at hresult
  cases hcertain' with
  | done a => cases hresult
  | note rest => cases hresult

/-- A call that ends with an error leaves none of the notes that its program keeps back, given that
lookups never leave them. -/
theorem withheld_of_error {error : GateError} (hprogram : program.Withholds P)
    (hlooks : ∀ {name id c stage c' stage' notes},
      Transition name id c stage c' stage' notes → ∀ n ∈ notes, P n = false)
    {interrupt : Option Interrupt} {answer : Option (Except StorageError (List Sku))}
    (hcall : (after (earlier ++ .go id interrupt answer :: later)).program? id = some program)
    (hresult : (after (earlier ++ .go id interrupt answer :: later)).result? id =
      some (.error error)) :
    ∃ notes, (after (earlier ++ [.go id interrupt answer])).ledger =
        (after earlier).ledger.notes notes ∧ ∀ n ∈ notes, P n = false := by
  have hattained : ∀ p, (after earlier).progress? id = some p →
      Attained (after earlier).cache program p := fun p here => attained_of_progress? here hcall
  have hstep := step_step (after earlier) (.go id interrupt answer)
  rw [after_append, run, List.foldl_cons, ← run] at hresult
  rw [after_concat]
  generalize (after earlier).step (.go id interrupt answer) = s' at hstep hresult ⊢
  cases hstep with
  | idle => exact ⟨[], rfl, fun n hn => absurd hn List.not_mem_nil⟩
  | @note _ _ _ n next there =>
    refine ⟨[n], rfl, fun m hm => ?_⟩
    rw [List.mem_singleton.mp hm]
    -- a withheld note would leave the program certain of a result
    have hnote := hprogram.follows (hattained _ there)
    cases hnote with
    | note last _ =>
      by_contra hwithheld
      have hcertain := last (Bool.not_eq_false _ ▸ hwithheld)
      refine result?_ne_error_of_certain hcertain ?_ later hresult
      rw [progress?_resume, if_pos rfl]
      exact congrArg _ there
  | ask => exact ⟨[], rfl, fun n hn => absurd hn List.not_mem_nil⟩
  | look _ stepped => exact ⟨_, rfl, hlooks (transition_of_step stepped)⟩

end Traffic

/-! ### Queries -/

namespace Sku

variable {region instanceType name : String}

theorem resolve_silent : (resolve region instanceType).Silent := by
  by_cases hregion : region = ""
  · rw [resolve, if_pos hregion]
    exact .done _
  by_cases htype : instanceType = ""
  · rw [resolve, if_neg hregion, if_pos htype]
    exact .done _
  rw [resolve_eq hregion htype]
  exact .ask fun _ => .done _

theorem hasCapability_silent : (hasCapability region instanceType name).Silent := by
  unfold hasCapability capabilityOf
  split
  · exact .done _
  · refine (resolve_silent.bind fun _ => .done _).bind fun value => ?_
    cases value with
    | some => exact .done _
    | none => exact .done _

end Sku

end ClusterGate
