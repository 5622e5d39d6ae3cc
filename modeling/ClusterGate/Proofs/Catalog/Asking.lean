import ClusterGate.Proofs.Catalog.Memo

/-!
# Programs with one question

A program that asks for the components of one release and ends with a verdict on the answer: whoever
visits the catalog with it ends with the verdict on what it was told, and once told, it ends.
Main statements: `told_of_ended`, `ended_of_told`.
-/

namespace ClusterGate.Catalog

open ComponentMemo Visits

variable {α : Type} {s : Visits α} {turns earlier later : List (Turn α)} {id : Nat} {l : Look}
  {visit : Visit α} {key : String} {c : Components} {told : Except GateError Components}
  {verdict : Except GateError Components → Except GateError α} {result : Except GateError α}

/-- The program that asks for the components of a release, once, and ends with its verdict. -/
def asking (key : String) (verdict : Except GateError Components → Except GateError α) : Engine α :=
  .ask (.components key) fun told => .done (verdict told)

/-- What a look tells a visit that asks for the components of a release: what is remembered, the
answer of the store, or that it was interrupted. -/
inductive Tells (s : Visits α) (id : Nat) (l : Look) (key : String) :
    Except GateError Components → Prop where
  | remembered {visit : Visit α} {next : Except GateError Components → Engine α} {c : Components}
      (visits : s.visit? id = some visit) (here : visit.standing = .reading key .checking next)
      (found : s.memo.get? key = some c) : Tells s id l key (.ok c)
  | answered {visit : Visit α} {next : Except GateError Components → Engine α}
      {a : Except StorageError (Option Record)}
      (visits : s.visit? id = some visit) (here : visit.standing = .reading key (.reading true) next)
      (free : l.interrupt = none) (answer : l.record = some a) : Tells s id l key (ofAnswer key a)
  | interrupted {visit : Visit α} {next : Except GateError Components → Engine α} {called : Bool}
      {i : Interrupt}
      (visits : s.visit? id = some visit) (here : visit.standing = .reading key (.reading called) next)
      (fired : l.interrupt = some i) : Tells s id l key (.error (.ofInterrupt readOperation i))

theorem Tells.standing (h : Tells s id l key told) (hvisit : s.visit? id = some visit) :
    ∃ stage next, visit.standing = .reading key stage next := by
  cases h with
  | remembered visits here | answered visits here | interrupted visits here =>
    rw [hvisit] at visits
    cases visits
    exact ⟨_, _, here⟩

/-- At some turn the visit was told this. -/
def WasTold (turns : List (Turn α)) (id : Nat) (key : String) (told : Except GateError Components) :
    Prop :=
  ∃ earlier l later, turns = earlier ++ .go id l :: later ∧ Tells (after earlier) id l key told

theorem WasTold.concat (h : WasTold turns id key told) (t : Turn α) :
    WasTold (turns ++ [t]) id key told := by
  obtain ⟨earlier, l, later, rfl, htells⟩ := h
  exact ⟨earlier, l, later ++ [t], by simp, htells⟩

theorem wasTold_last (h : Tells (after turns) id l key told) :
    WasTold (turns ++ [.go id l]) id key told :=
  ⟨turns, l, [], rfl, h⟩

/-- A visit with one question is at the question or at its end, and calls the store for the record of
its release alone. -/
def AtQuestion (key : String) (verdict : Except GateError Components → Except GateError α)
    (visit : Visit α) : Prop :=
  ((∃ stage, visit.standing = .reading key stage fun told => .done (verdict told)) ∨
    ∃ result, visit.standing = .ended result) ∧
  ∀ call ∈ visit.calls, call = .get releaseKind key

theorem ofReading_calls {call : Session.StoreCall} {memo : ComponentMemo} {stage : Reading}
    {next : Except GateError Components → Engine α}
    (h : call ∈ (Outcome.ofReading memo key next stage).calls) : call = .get releaseKind key := by
  have hcalls : (Outcome.ofReading memo key next stage).calls = callAt key stage := by
    cases stage <;> rfl
  rw [hcalls, callAt.eq_def] at h
  split at h
  next => exact List.mem_singleton.mp h
  next => cases h

theorem AtQuestion.looked (h : AtQuestion key verdict visit) (memo : ComponentMemo) (l : Look) :
    AtQuestion key verdict (visit.looked memo l) := by
  obtain ⟨⟨stage, hstanding⟩ | ⟨result, hended⟩, hcalls⟩ := h
  · rw [AtQuestion, Visit.looked, hstanding]
    rcases look_reading memo l key stage _ with hwait | ⟨memo', stage', -, hlook⟩
    · rw [hwait]
      exact ⟨Or.inl ⟨stage, rfl⟩, by simpa using hcalls⟩
    · rw [hlook]
      refine ⟨?_, fun call hcall => (List.mem_append.mp hcall).elim (hcalls call) ofReading_calls⟩
      cases stage' with
      | done told => exact Or.inr ⟨verdict told, rfl⟩
      | checking | reading | decoded => exact Or.inl ⟨_, rfl⟩
  · rw [AtQuestion, Visit.looked, hended]
    exact ⟨Or.inr ⟨result, rfl⟩, by simpa [Standing.look] using hcalls⟩

theorem atQuestion (h : (after turns).visit? id = some visit)
    (hprogram : visit.program = asking key verdict) : AtQuestion key verdict visit :=
  visit_of_program ⟨Or.inl ⟨.checking, rfl⟩, nofun⟩ (fun _ memo l h => h.looked memo l) h hprogram

/-- What holds of a visit with one question while it is told nothing, and once it was told. -/
structure Asks (turns : List (Turn α)) (id : Nat) (key : String)
    (verdict : Except GateError Components → Except GateError α) (visit : Visit α) : Prop where
  decoded : ∀ c next, visit.standing = .reading key (.decoded c) next → WasTold turns id key (.ok c)
  ended : ∀ result, visit.standing = .ended result →
    ∃ told, WasTold turns id key told ∧ result = verdict told

theorem Asks.concat (h : Asks turns id key verdict visit) (t : Turn α) :
    Asks (turns ++ [t]) id key verdict visit where
  decoded c next hstanding := (h.decoded c next hstanding).concat t
  ended result hended := by
    obtain ⟨told, htold, hresult⟩ := h.ended result hended
    exact ⟨told, htold.concat t, hresult⟩

theorem Asks.looked (h : Asks turns id key verdict visit)
    (hvisit : (after turns).visit? id = some visit)
    (hprogram : visit.program = asking key verdict) (l : Look) :
    Asks (turns ++ [.go id l]) id key verdict (visit.looked (after turns).memo l) := by
  rcases (atQuestion hvisit hprogram).1 with ⟨stage, hstanding⟩ | ⟨result, hended⟩
  · rcases look_reading (after turns).memo l key stage _ with hwait | ⟨memo', stage', htransition, hlook⟩
    · -- the look changes nothing
      have hsame : (visit.looked (after turns).memo l).standing = visit.standing := by
        rw [Visit.looked, hstanding, hwait]
      exact ⟨fun c next hd => (h.concat _).decoded c next (hsame ▸ hd),
        fun result hd => (h.concat _).ended result (hsame ▸ hd)⟩
    · have hlooked : (visit.looked (after turns).memo l).standing =
          (Outcome.ofReading memo' key (fun told => .done (verdict told)) stage').standing := by
        rw [Visit.looked, hstanding, hlook]
      refine ⟨fun c next hd => ?_, fun result hd => ?_⟩
      · rw [hlooked] at hd
        cases htransition with
        | @decoded r c' free answered usable =>
          cases hd
          have htells := Tells.answered hvisit hstanding free answered
          rw [ofAnswer, usable] at htells
          exact wasTold_last htells
        | _ => cases hd
      · rw [hlooked] at hd
        cases htransition with
        | found remembered =>
          cases hd
          exact ⟨_, wasTold_last (.remembered hvisit hstanding remembered), rfl⟩
        | interrupted fired =>
          cases hd
          exact ⟨_, wasTold_last (.interrupted hvisit hstanding fired), rfl⟩
        | refused free answered unusable =>
          cases hd
          have htells := Tells.answered hvisit hstanding free answered
          rw [unusable] at htells
          exact ⟨_, wasTold_last htells, rfl⟩
        | kept =>
          cases hd
          exact ⟨_, (h.decoded _ _ hstanding).concat _, rfl⟩
        | missed | called | decoded => cases hd
  · have hsame : (visit.looked (after turns).memo l).standing = visit.standing := by
      rw [Visit.looked, hended]
      rfl
    exact ⟨fun c next hd => (h.concat _).decoded c next (hsame ▸ hd),
      fun result hd => (h.concat _).ended result (hsame ▸ hd)⟩

theorem asks (h : (after turns).visit? id = some visit)
    (hprogram : visit.program = asking key verdict) : Asks turns id key verdict visit := by
  induction turns using List.reverseRecOn generalizing visit with
  | nil => cases h
  | append_singleton turns t ih =>
    rw [after_concat] at h
    rcases visit_cases h with hold | ⟨program, rfl, rfl⟩ | ⟨l, w, rfl, hw, rfl⟩
    · exact (ih hold hprogram).concat t
    · obtain rfl : program = asking key verdict := hprogram
      exact ⟨nofun, nofun⟩
    · exact (ih hw hprogram).looked hw hprogram l

/-- A visit that has ended was told something of its release, and its result is the verdict on it. -/
theorem told_of_ended (h : (after turns).visit? id = some visit)
    (hprogram : visit.program = asking key verdict) (hresult : visit.result? = some result) :
    ∃ told, WasTold turns id key told ∧ result = verdict told := by
  refine (asks h hprogram).ended result ?_
  obtain ⟨program, standing, looks, calls, notes⟩ := visit
  cases standing <;> cases hresult
  rfl

/-- Components that a visit was told are those of a record that the store returned. -/
theorem WasTold.backed (h : WasTold turns id key (.ok c)) : Backed turns key c := by
  obtain ⟨earlier, l, later, rfl, htells⟩ := h
  have hbacked : Backed (earlier ++ [.go id l]) key c := by
    generalize htold : (Except.ok c : Except GateError Components) = told at htells
    cases htells with
    | remembered visits here found =>
      cases htold
      exact ((sourced_after earlier).memo _ _ found).concat _
    | @answered visit next a visits here free answer =>
      obtain ⟨r, rfl, hrecord⟩ := ofAnswer_ok htold.symm
      have hcalled := called_of_reading visits here
      exact ⟨r, ⟨earlier, id, l, [], visit, next, rfl, free, answer, visits, here, hcalled⟩, hrecord⟩
    | interrupted => cases htold
  obtain ⟨r, ⟨first, i, m, rest, w, next, hturns, hreturned⟩, hrecord⟩ := hbacked
  refine ⟨r, ⟨first, i, m, rest ++ later, w, next, ?_, hreturned⟩, hrecord⟩
  rw [List.append_cons, hturns, List.append_assoc, List.cons_append]

/-! ### Whoever was told ends -/

/-- A visit with its components in hand ends with its next look, whatever interrupts. -/
theorem ended_of_decoded (h : s.visit? id = some visit)
    (hstanding : visit.standing = .reading key (.decoded c) fun told => .done (verdict told))
    (turns : List (Turn α)) (hlooked : ∃ l, .go id l ∈ turns) :
    ∃ w, (s.run turns).visit? id = some w ∧ w.result? = some (verdict (.ok c)) := by
  obtain ⟨l, hl⟩ := hlooked
  obtain ⟨front, back, rfl⟩ := List.append_of_mem hl
  have hends : ∀ (v : Visit α) memo l,
      v.standing = .reading key (.decoded c) (fun told => .done (verdict told)) ∨
        v.standing = .ended (verdict (.ok c)) →
      (v.looked memo l).standing = .ended (verdict (.ok c)) := by
    rintro v memo l (hdecoded | hended)
    · rw [Visit.looked, hdecoded]
      rfl
    · rw [Visit.looked, hended]
      rfl
  obtain ⟨v, hv, hfront⟩ := visit_run
    (fun v memo l hkeep => Or.inr (hends v memo l hkeep)) h (Or.inl hstanding) front
  have hgo : ((s.run front).step (.go id l)).visit? id = some (v.looked (s.run front).memo l) := by
    rw [visit?_go hv, if_pos rfl]
  obtain ⟨w, hw, hresult, -⟩ := ended_run hgo (hends v _ l hfront) back
  refine ⟨w, ?_, ?_⟩
  · rw [run, List.foldl_append]
    exact hw
  · rw [Visit.result?, hresult]
    rfl

/-- Once told, a visit ends with the verdict: at once if it was told an error, and otherwise with its
next look at the latest. -/
theorem ended_of_told (hvisit : (after earlier).visit? id = some visit)
    (hprogram : visit.program = asking key verdict) (htells : Tells (after earlier) id l key told)
    (hlater : (∃ e, told = .error e) ∨ ∃ l, .go id l ∈ later) :
    ∃ w, (after (earlier ++ .go id l :: later)).visit? id = some w ∧
      w.result? = some (verdict told) := by
  have hlooked : ((after earlier).step (.go id l)).visit? id =
      some (visit.looked (after earlier).memo l) := by
    rw [visit?_go hvisit, if_pos rfl]
  have hatEnd : (visit.looked (after earlier).memo l).standing = .ended (verdict told) →
      ∃ w, (after (earlier ++ .go id l :: later)).visit? id = some w ∧
        w.result? = some (verdict told) := by
    intro hended
    obtain ⟨w, hw, hwended, -⟩ := ended_run hlooked hended later
    refine ⟨w, ?_, ?_⟩
    · rw [after_append]
      exact hw
    · rw [Visit.result?, hwended]
      rfl
  have hnext : ∀ {stage next}, visit.standing = .reading key stage next →
      visit.standing = .reading key stage fun told => .done (verdict told) := by
    intro stage next hstanding
    rcases (atQuestion hvisit hprogram).1 with ⟨stage', h⟩ | ⟨result, h⟩
    · rw [hstanding] at h
      cases h
      exact hstanding
    · rw [hstanding] at h
      cases h
  cases htells with
  | remembered visits here found =>
    rw [hvisit] at visits
    cases visits
    refine hatEnd ?_
    simp only [Visit.looked, hnext here, Standing.look, ComponentMemo.step, found]
    rfl
  | interrupted visits here fired =>
    rw [hvisit] at visits
    cases visits
    refine hatEnd ?_
    simp only [Visit.looked, hnext here, Standing.look, ComponentMemo.step, fired, guarded]
    rfl
  | @answered _ _ a visits here free answer =>
    rw [hvisit] at visits
    cases visits
    cases htold : ofAnswer key a with
    | error e =>
      rw [htold] at hatEnd
      refine hatEnd ?_
      simp only [Visit.looked, hnext here, Standing.look, ComponentMemo.step, free, answer, guarded,
        Option.map_some, if_true, htold]
      rfl
    | ok c =>
      have hdecoded : (visit.looked (after earlier).memo l).standing =
          .reading key (.decoded c) fun told => .done (verdict told) := by
        simp only [Visit.looked, hnext here, Standing.look, ComponentMemo.step, free, answer, guarded,
          Option.map_some, if_true, htold]
        rfl
      rcases hlater with ⟨e, herror⟩ | hlooks
      · rw [htold] at herror
        cases herror
      · rw [after_append]
        exact ended_of_decoded hlooked hdecoded later hlooks

end ClusterGate.Catalog
