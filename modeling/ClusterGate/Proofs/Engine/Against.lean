import ClusterGate.Proofs.Sku.Answers

/-!
# Programs judged by one table

The verdict of a program when every region has the same table, and when this is also what the program
comes to on a cache that many calls share. Main statement: `against_of_follows`.
-/

namespace ClusterGate.Engine

variable {α β σ : Type} {e : Engine α} {f : α → Engine β} {table : RegionTable} {region : String}

theorem run_bind {answer : (q : Query) → σ → Except GateError q.Answer × σ} {take : Note → σ → σ}
    {s : σ} : (e >>= f).run answer take s =
      match e.run answer take s with
      | (.ok a, s') => (f a).run answer take s'
      | (.error err, s') => (.error err, s') := by
  induction e generalizing s with
  | done result => cases result <;> rfl
  | note n next ih => exact ih
  | ask q next ih => exact ih (answer q s).1

/-- What is answered when every region has the same table and there are no releases. -/
def oneTable (table : RegionTable) : (q : Query) → Unit → Except GateError q.Answer × Unit
  | .region _, s => (.ok table, s)
  | .components release, s => (.error (.releaseNotFound release), s)
  | .releases, s => (.ok [], s)

/-- The verdict of a program when every region has the same table. -/
def against (table : RegionTable) (e : Engine α) : Except GateError α :=
  (e.run (oneTable table) (fun _ s => s) ()).1

theorem against_done {result : Except GateError α} :
    (done result).against table = result := rfl

theorem against_fail {error : GateError} :
    (fail error : Engine α).against table = .error error := rfl

theorem against_ask {next : Except GateError RegionTable → Engine α} :
    (ask (.region region) next).against table = (next (.ok table)).against table := rfl

theorem against_ofExcept {result : Except GateError α} :
    (Engine.ofExcept result).against table = result := rfl

theorem against_pure {a b : α} : (pure a : Engine α).against table = .ok b ↔ a = b := by
  constructor
  · exact Except.ok.inj
  · exact congrArg Except.ok

theorem against_require {condition : Bool} {detail : String} {u : Unit} :
    (require condition detail).against table = .ok u ↔ condition = true := by
  cases condition with
  | true => exact iff_of_true rfl rfl
  | false => exact iff_of_false (fun h => nomatch h) Bool.false_ne_true

theorem against_notes (ns : List Note) : (notes ns).against table = .ok () := by
  induction ns with
  | nil => rfl
  | cons n rest ih => exact ih

/-- What is accepted at the end was accepted at each step. -/
theorem against_bind {b : β} :
    (e >>= f).against table = .ok b ↔
      ∃ a, e.against table = .ok a ∧ (f a).against table = .ok b := by
  simp only [against, run_bind]
  rcases e.run (oneTable table) (fun _ s => s) () with ⟨error | a, _⟩
  · exact iff_of_false (fun h => nomatch h) (fun ⟨_, h, _⟩ => nomatch h)
  · constructor
    · intro h
      exact ⟨a, rfl, h⟩
    · rintro ⟨_, ha, h⟩
      cases ha
      exact h

/-! ### Programs that rest on one region -/

/-- The program asks for one region only, and fails if it is told no table or an empty one. -/
inductive RestsOn (region : String) : Engine α → Prop where
  | done (result : Except GateError α) : RestsOn region (.done result)
  | note {n : Note} {e : Engine α} (rest : RestsOn region e) : RestsOn region (.note n e)
  | ask {next : Except GateError RegionTable → Engine α}
      (untold : ∀ error, ∃ failure, next (.error error) = .done (.error failure))
      (empty : ∃ failure, next (.ok []) = .done (.error failure))
      (rest : ∀ table, RestsOn region (next (.ok table))) : RestsOn region (.ask (.region region) next)

theorem RestsOn.bind (h : e.RestsOn region) (hf : ∀ a, (f a).RestsOn region) :
    (e >>= f).RestsOn region := by
  induction h with
  | done result =>
    cases result with
    | error => exact .done _
    | ok a => exact hf a
  | note _ ih => exact .note ih
  | ask untold empty _ ih =>
    refine .ask ?_ ?_ ih
    · intro error
      obtain ⟨failure, hnext⟩ := untold error
      exact ⟨failure, by rw [hnext]; rfl⟩
    · obtain ⟨failure, hnext⟩ := empty
      exact ⟨failure, by rw [hnext]; rfl⟩

theorem require_restsOn {condition : Bool} {detail : String} :
    (require condition detail).RestsOn region := by
  unfold require
  split
  · exact .done _
  · exact .done _

theorem notes_restsOn (ns : List Note) : (notes ns).RestsOn region := by
  induction ns with
  | nil => exact .done _
  | cons n rest ih => exact .note ih

/-- What a program accepts on a shared cache it accepts by the table that the cache keeps. -/
theorem against_of_follows {c : RegionCache} {a : α} (hrests : e.RestsOn region)
    (h : e.Follows c.Vouches (.done (.ok a))) :
    e.against ((c.stored? region).getD []) = .ok a := by
  induction hrests with
  | done result =>
    cases h
    rfl
  | note _ ih =>
    cases h with
    | note rest => exact ih rest
  | ask untold empty _ ih =>
    cases h with
    | @answer _ result _ _ admitted rest =>
      match result with
      | .error error =>
        obtain ⟨failure, hnext⟩ := untold error
        rw [hnext] at rest
        exact nomatch rest.eq_of_done
      | .ok [] =>
        obtain ⟨failure, hnext⟩ := empty
        rw [hnext] at rest
        exact nomatch rest.eq_of_done
      | .ok (entry :: others) =>
        have hstored := admitted (entry :: others) rfl (List.cons_ne_nil _ _)
        have hrest := ih (entry :: others) rest
        rw [hstored] at hrest ⊢
        exact hrest

end ClusterGate.Engine
