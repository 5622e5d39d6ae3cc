import ClusterGate.Proofs.Engine.Against
import ClusterGate.Proofs.Engine.Announcement
import ClusterGate.Proofs.Engine.Ends

/-!
# Calls that were told a table

Once a call was told a table that is not empty, nothing can keep it from the verdict of this table,
provided that its program rests on the one region: the table stays, so all its other lookups find it.
Main statement: `Traffic.result?_of_told`.
-/

namespace ClusterGate

namespace Engine

variable {α β : Type} {e : Engine α} {c : RegionCache} {table : RegionTable} {region name : String}
  {next : Except GateError RegionTable → Engine α}

theorem against_bind_eq {f : α → Engine β} :
    (e >>= f).against table = match e.against table with
      | .ok a => (f a).against table
      | .error error => .error error := by
  simp only [against, run_bind]
  rcases e.run (oneTable table) (fun _ s => s) () with ⟨error | a, _⟩
  · rfl
  · rfl

theorem RestsOn.ends (h : e.RestsOn region) (hstored : c.stored? region = some table) :
    ∃ k, e.Ends c (e.against table) k := by
  induction h with
  | done result => exact ⟨0, .done⟩
  | note _ ih =>
    obtain ⟨k, hends⟩ := ih
    exact ⟨k + 1, .note hends⟩
  | ask _ _ _ ih =>
    obtain ⟨k, hends⟩ := ih table
    exact ⟨k + 2, .ask hstored hends⟩

/-- Whoever still asks has been told no other table than the one that its region keeps. -/
theorem against_of_asked (hrests : e.RestsOn region)
    (h : e.Follows c.Vouches (.ask (.region name) next)) (hstored : c.stored? name = some table) :
    name = region ∧ (∀ table, (next (.ok table)).RestsOn region) ∧
      e.against table = (next (.ok table)).against table := by
  induction hrests with
  | done result => exact nomatch h.eq_of_done
  | note _ ih =>
    cases h with
    | note rest => exact ih rest
  | ask untold empty rests ih =>
    cases h with
    | refl => exact ⟨rfl, rests, rfl⟩
    | @answer _ result _ _ admitted rest =>
      -- an error or an empty table would have ended the program
      match result with
      | .error error =>
        obtain ⟨failure, hnext⟩ := untold error
        rw [hnext] at rest
        exact nomatch rest.eq_of_done
      | .ok [] =>
        obtain ⟨failure, hnext⟩ := empty
        rw [hnext] at rest
        exact nomatch rest.eq_of_done
      | .ok (entry :: others) =>
        obtain ⟨rfl, hnext, hverdict⟩ := ih (entry :: others) rest
        have hkept := admitted (entry :: others) rfl (List.cons_ne_nil _ _)
        rw [hstored] at hkept
        obtain rfl := Option.some.inj hkept
        exact ⟨rfl, hnext, hverdict⟩

end Engine

/-- Who is on the way to a result comes to no other one. -/
theorem Progress.Ends.eq_of_result? {α : Type} {c : RegionCache} {result other : Except GateError α}
    {p : Progress α} {k : Nat} (h : p.Ends c result k) (hother : p.result? = some other) :
    other = result := by
  cases h with
  | running rest =>
    cases rest with
    | done => exact (Option.some.inj hother).symm
    | note | ask => cases hother
  | checking => cases hother

theorem Progress.Ends.result?_eq {α : Type} {c : RegionCache} {result : Except GateError α}
    {p : Progress α} (h : p.Ends c result 0) : p.result? = some result := by
  cases h with
  | running rest =>
    cases rest with
    | done => rfl

namespace Traffic

variable {α : Type} {s : Traffic α} {id : LookupId} {region : String} {table : RegionTable}
  {interrupt : Option Interrupt} {answer : Option (Except StorageError (List Sku))}
  {result : Except GateError RegionTable} {earlier : List (Move α)} {program : Engine α}

/-- The move ends the lookup that the call is in, and this is what the call is told. -/
def Tells (s : Traffic α) (id : LookupId) (interrupt : Option Interrupt)
    (answer : Option (Except StorageError (List Sku))) (result : Except GateError RegionTable) :
    Prop :=
  ∃ region stage next cache notes, s.progress? id = some (.looking region stage next) ∧
    s.cache.step region id interrupt answer stage = some (cache, .done result, notes)

theorem Tells.told (h : s.Tells id interrupt answer result) :
    ∃ region stage next, s.progress? id = some (.looking region stage next) ∧
      (s.step (.go id interrupt answer)).progress? id = some (.running (next result)) ∧
      (s.step (.go id interrupt answer)).cache.Vouches region result := by
  obtain ⟨region, stage, next, cache, notes, here, hstep⟩ := h
  refine ⟨region, stage, next, here, ?_⟩
  simp only [step, here, hstep]
  refine ⟨?_, (RegionCache.transition_of_step hstep).vouches⟩
  rw [progress?_resume, if_pos rfl]
  exact congrArg _ here

/-- The verdict of the table comes with at most so many more moves of the call, and nothing else
does. -/
theorem result?_of_told (hrests : program.RestsOn region)
    (hcall : (after earlier).program? id = some program)
    (htold : (after earlier).Tells id interrupt answer (.ok table)) (hne : table ≠ []) :
    ∃ k, ∀ later,
      (∀ result, (after (earlier ++ .go id interrupt answer :: later)).result? id = some result →
        result = program.against table) ∧
      (k ≤ later.countP (Move.isOf id) →
        (after (earlier ++ .go id interrupt answer :: later)).result? id =
          some (program.against table)) := by
  obtain ⟨name, stage, next, here, hnext, hvouches⟩ := htold.told
  have horderly := orderly_after earlier
  have hstep := step_step (after earlier) (.go id interrupt answer)
  have hattained := (attained_of_call here hcall).mono fun _ _ => horderly.stored_step hstep
  have hstored := hvouches table rfl hne
  obtain ⟨rfl, hrest, hverdict⟩ := Engine.against_of_asked hrests hattained hstored
  obtain ⟨k, hends⟩ := (hrest table).ends hstored
  rw [← hverdict] at hends
  refine ⟨k, fun later => ?_⟩
  obtain ⟨p, hp, hend⟩ := ends_run (horderly.step hstep) (.running hends) hnext later
  rw [after_append, run, List.foldl_cons, ← run, result?, hp]
  refine ⟨fun result hresult => hend.eq_of_result? hresult, fun henough => ?_⟩
  rw [Nat.sub_eq_zero_of_le henough] at hend
  exact hend.result?_eq

end Traffic

end ClusterGate
