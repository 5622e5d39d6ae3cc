import ClusterGate.Catalog.Queries
import ClusterGate.Proofs.Catalog.Reading
import ClusterGate.Proofs.Catalog.Visits
import ClusterGate.Proofs.Version.Canonical

/-!
# The component memo under many visits

A reading looks into the memo, then asks the store, then writes, and holds no lock meanwhile, so that
several readings of one release may be under way at once. What is remembered is nevertheless the map of
one record that the store returned under the name, and it stays. Main statement: `memo_sound`.
-/

namespace ClusterGate

namespace Catalog

open ComponentMemo Visits
open Components (MapOf)

variable {α : Type} {s : Visits α} {turns earlier later : List (Turn α)} {id : Nat} {l : Look}
  {memo : ComponentMemo} {standing : Standing α} {key : String} {c : Components}
  {next : Except GateError Components → Engine α}

/-! ### What a look does to the memo -/

/-- A look at a reading leaves it waiting, or is a step of it. -/
theorem look_reading (memo : ComponentMemo) (l : Look) (name : String) (stage : Reading)
    (next : Except GateError Components → Engine α) :
    (Standing.reading name stage next).look memo l = ⟨memo, .reading name stage next, [], []⟩ ∨
      ∃ memo' stage', Transition name l.interrupt l.record memo stage memo' stage' ∧
        (Standing.reading name stage next).look memo l = .ofReading memo' name next stage' := by
  rw [Standing.look]
  split
  next => exact Or.inl rfl
  next memo' stage' hstep => exact Or.inr ⟨memo', stage', transition_of_step hstep, rfl⟩

theorem ofReading_memo (memo : ComponentMemo) (name : String) (stage : Reading) :
    (Outcome.ofReading memo name next stage).memo = memo := by
  cases stage <;> rfl

/-- Only a reading that has its components writes, and it is at its end then. -/
theorem look_memo (standing : Standing α) (memo : ComponentMemo) (l : Look) :
    (standing.look memo l).memo = memo ∨
      ∃ name c next, standing = .reading name (.decoded c) next ∧
        (standing.look memo l).memo = memo.remember name c ∧
        (standing.look memo l).standing = .ofEngine (next (.ok c)) := by
  cases standing with
  | ended | elsewhere => exact Or.inl rfl
  | listing stage next =>
    refine Or.inl ?_
    rw [Standing.look]
    split <;> rfl
  | reading name stage next =>
    rcases look_reading memo l name stage next with hwait | ⟨memo', stage', htransition, hlook⟩
    · rw [hwait]
      exact Or.inl rfl
    · rw [hlook, ofReading_memo]
      cases htransition with
      | kept => exact Or.inr ⟨name, _, next, rfl, rfl, rfl⟩
      | _ => exact Or.inl rfl

theorem ofEngine_checking {program : Engine α} {stage : Reading}
    (h : Standing.ofEngine program = .reading key stage next) : stage = .checking := by
  induction program with
  | done => cases h
  | note n next ih => exact ih h
  | ask q next =>
    cases q <;> cases h
    rfl

/-- A reading is at its beginning, or where it was before, or has come there by a step. -/
theorem look_cases {stage : Reading} (h : (standing.look memo l).standing = .reading key stage next) :
    stage = .checking ∨ standing = .reading key stage next ∨
      ∃ before memo', standing = .reading key before next ∧
        Transition key l.interrupt l.record memo before memo' stage ∧
        (standing.look memo l).calls = callAt key stage := by
  cases standing with
  | ended | elsewhere => exact Or.inr (Or.inl h)
  | listing stage next =>
    rw [Standing.look] at h
    split at h
    next => cases h
    next => exact Or.inl (ofEngine_checking h)
    next => cases h
  | reading name before next =>
    rcases look_reading memo l name before next with hwait | ⟨memo', stage', htransition, hlook⟩
    · rw [hwait] at h
      exact Or.inr (Or.inl h)
    · rw [hlook] at h ⊢
      cases stage' with
      | done => exact Or.inl (ofEngine_checking h)
      | checking | reading | decoded =>
        cases h
        exact Or.inr (Or.inr ⟨before, memo', rfl, htransition, rfl⟩)

/-! ### Records behind maps -/

/-- The store has returned a record to a visit that called it for the record of this name. -/
def Returned (turns : List (Turn α)) (key : String) (r : Record) : Prop :=
  ∃ earlier id l later visit next, turns = earlier ++ .go id l :: later ∧
    l.interrupt = none ∧ l.record = some (.ok (some r)) ∧
    (after earlier).visit? id = some visit ∧
    visit.standing = .reading key (.reading true) next ∧ .get releaseKind key ∈ visit.calls

/-- Components are those of a record that was returned. -/
def Backed (turns : List (Turn α)) (key : String) (c : Components) : Prop :=
  ∃ r, Returned turns key r ∧ Components.ofRecord key r = .ok c

theorem Backed.concat (h : Backed turns key c) (t : Turn α) : Backed (turns ++ [t]) key c := by
  obtain ⟨r, ⟨earlier, id, l, later, visit, next, rfl, hvisit⟩, hrecord⟩ := h
  exact ⟨r, ⟨earlier, id, l, later ++ [t], visit, next, by simp, hvisit⟩, hrecord⟩

theorem called_of_reading {visit : Visit α} (h : (after turns).visit? id = some visit)
    (hstanding : visit.standing = .reading key (.reading true) next) :
    .get releaseKind key ∈ visit.calls := by
  refine every_visit (P := fun visit => ∀ next,
    visit.standing = .reading key (.reading true) next → .get releaseKind key ∈ visit.calls)
    ?_ ?_ turns id visit h next hstanding
  · intro program next hbegin
    exact nomatch ofEngine_checking hbegin
  · intro visit memo l hcalled next hlooked
    rw [Visit.looked, List.mem_append]
    rcases look_cases hlooked with hchecking | hsame | ⟨stage, memo', -, -, hcalls⟩
    · cases hchecking
    · exact Or.inl (hcalled next hsame)
    · rw [hcalls]
      exact Or.inr List.mem_cons_self

/-- Everything that is remembered, or is about to be, is backed by a record. -/
structure Sourced (turns : List (Turn α)) : Prop where
  memo : ∀ key c, (after turns).memo.get? key = some c → Backed turns key c
  decoded : ∀ id visit key c next, (after turns).visit? id = some visit →
    visit.standing = .reading key (.decoded c) next → Backed turns key c

theorem Sourced.concat (h : Sourced turns) (t : Turn α) : Sourced (turns ++ [t]) where
  memo key c hget := by
    rw [after_concat] at hget
    cases t with
    | enter program => exact (h.memo key c hget).concat _
    | go id l =>
      cases hvisit : (after turns).visit? id with
      | none =>
        rw [step_go_of_none hvisit] at hget
        exact (h.memo key c hget).concat _
      | some visit =>
        rw [memo_go hvisit] at hget
        rcases look_memo visit.standing (after turns).memo l with hsame | ⟨name, d, next, hstanding, hmemo, -⟩
        · rw [hsame] at hget
          exact (h.memo key c hget).concat _
        · rw [hmemo, get?_remember] at hget
          split at hget
          next hkey =>
            subst hkey
            cases hold : (after turns).memo.get? key with
            | some c' =>
              rw [hold] at hget
              cases hget
              exact (h.memo key c' hold).concat _
            | none =>
              rw [hold] at hget
              cases hget
              exact (h.decoded id visit key d next hvisit hstanding).concat _
          next => exact (h.memo key c hget).concat _
  decoded id visit key c next hvisit hstanding := by
    rw [after_concat] at hvisit
    rcases visit_cases hvisit with hold | ⟨program, -, rfl⟩ | ⟨l, w, rfl, hw, rfl⟩
    · exact (h.decoded id visit key c next hold hstanding).concat t
    · exact nomatch ofEngine_checking hstanding
    · rcases look_cases hstanding with hchecking | hsame | ⟨stage, memo', hbefore, htransition, -⟩
      · cases hchecking
      · exact (h.decoded id w key c next hw hsame).concat _
      · cases htransition with
        | @decoded r c free answered usable =>
          have hcalled := called_of_reading hw hbefore
          exact ⟨r, ⟨turns, id, l, [], w, next, rfl, free, answered, hw, hbefore, hcalled⟩, usable⟩

theorem sourced_after (turns : List (Turn α)) : Sourced turns := by
  induction turns using List.reverseRecOn with
  | nil => exact ⟨nofun, nofun⟩
  | append_singleton turns t ih => exact ih.concat t

/-! ### Entries that stay -/

theorem kept_step (h : s.memo.get? key = some c) (t : Turn α) :
    (s.step t).memo.get? key = some c := by
  cases t with
  | enter program => exact h
  | go id l =>
    cases hvisit : s.visit? id with
    | none =>
      rw [step_go_of_none hvisit]
      exact h
    | some visit =>
      rw [memo_go hvisit]
      rcases look_memo visit.standing s.memo l with hsame | ⟨name, d, next, -, hmemo, -⟩
      · rw [hsame]
        exact h
      · rw [hmemo, get?_remember]
        split
        next hkey => rw [← hkey, h, Option.getD_some]
        next => exact h

theorem kept_run (h : s.memo.get? key = some c) (turns : List (Turn α)) :
    (s.run turns).memo.get? key = some c :=
  run_induction (P := fun s => s.memo.get? key = some c) (fun _ t h => kept_step h t) turns h

/-! ### Readers -/

variable {spelling : String} {v : Version}

theorem components_of_ok (h : Version.parse spelling = .ok v) :
    components spelling = .ask (.components v.releaseName) .done := by
  rw [components, requested, h]
  rfl

theorem components_of_error {e : Version.Invalid} (h : Version.parse spelling = .error e) :
    components spelling = .done (.error (.invalidRequest e.message)) := by
  rw [components, requested, h]
  rfl

section Readers

variable {turns earlier later : List (Turn Components)} {visit : Visit Components}

/-- Where a reader stands: it reads the components of one release under its usual name, or it is at
its end. -/
theorem reader_standing (h : (after turns).visit? id = some visit)
    (hreader : visit.program = components spelling) :
    (∃ v stage, Version.parse spelling = .ok v ∧
      visit.standing = .reading v.releaseName stage .done) ∨
    ∃ result, visit.standing = .ended result := by
  refine visit_of_program (Q := fun visit => (∃ v stage, Version.parse spelling = .ok v ∧
    visit.standing = .reading v.releaseName stage .done) ∨ ∃ result, visit.standing = .ended result)
    ?_ ?_ h hreader
  · cases hparse : Version.parse spelling with
    | error e =>
      rw [components_of_error hparse]
      exact Or.inr ⟨_, rfl⟩
    | ok v =>
      rw [components_of_ok hparse]
      exact Or.inl ⟨v, .checking, rfl, rfl⟩
  · rintro visit memo l (⟨v, stage, hparse, hstanding⟩ | ⟨result, hended⟩)
    · rw [Visit.looked, hstanding]
      rcases look_reading memo l v.releaseName stage .done with hwait | ⟨memo', stage', -, hlook⟩
      · rw [hwait]
        exact Or.inl ⟨v, stage, hparse, rfl⟩
      · rw [hlook]
        cases stage' with
        | done result => exact Or.inr ⟨result, rfl⟩
        | checking | reading | decoded => exact Or.inl ⟨v, _, hparse, rfl⟩
    · rw [Visit.looked, hended]
      exact Or.inr ⟨result, rfl⟩

/-- What a reader returns is backed by a record, whether the reader was told the record itself or
found what another one remembers. -/
theorem backed_result (h : (after turns).visit? id = some visit)
    (hreader : visit.program = components spelling) (hparse : Version.parse spelling = .ok v)
    (hresult : visit.standing = .ended (.ok c)) : Backed turns v.releaseName c := by
  induction turns using List.reverseRecOn generalizing visit with
  | nil => cases h
  | append_singleton turns t ih =>
    rw [after_concat] at h
    rcases visit_cases h with hold | ⟨program, -, rfl⟩ | ⟨l, w, rfl, hw, rfl⟩
    · exact (ih hold hreader hresult).concat t
    · obtain rfl : program = components spelling := hreader
      rw [Visit.ofEngine, components_of_ok hparse] at hresult
      cases hresult
    · rcases reader_standing hw hreader with ⟨u, stage, hu, hstanding⟩ | ⟨result, hended⟩
      · rw [hparse] at hu
        cases hu
        rw [Visit.looked, hstanding] at hresult
        rcases look_reading (after turns).memo l v.releaseName stage .done with
          hwait | ⟨memo', stage', htransition, hlook⟩
        · rw [hwait] at hresult
          cases hresult
        · rw [hlook] at hresult
          cases htransition with
          | found remembered =>
            cases hresult
            exact ((sourced_after turns).memo _ _ remembered).concat _
          | kept =>
            cases hresult
            exact ((sourced_after turns).decoded id w _ _ _ hw hstanding).concat _
          | missed | interrupted | called | refused | decoded => cases hresult
      · have hbefore : w.standing = .ended (.ok c) := by
          rw [Visit.looked, hended] at hresult
          rw [hended, ← hresult]
          rfl
        exact (ih hw hreader hbefore).concat _

/-- A turn of a reader that will fail leaves the memo as it is. -/
theorem memo_of_failed {e : GateError}
    (h : (after (earlier ++ .go id l :: later)).visit? id = some visit)
    (hreader : visit.program = components spelling) (hfailed : visit.standing = .ended (.error e)) :
    (after (earlier ++ [.go id l])).memo = (after earlier).memo := by
  have hturns : earlier ++ .go id l :: later = earlier ++ [.go id l] ++ later := by simp
  rw [hturns, after_append, after_concat] at h
  rw [after_concat]
  cases hw : (after earlier).visit? id with
  | none => rw [step_go_of_none hw]
  | some w =>
    have hlooked : ((after earlier).step (.go id l)).visit? id = some (w.looked (after earlier).memo l) := by
      rw [visit?_go hw, if_pos rfl]
    rw [memo_go hw]
    rcases look_memo w.standing (after earlier).memo l with hsame | ⟨name, c, next, hwriter, -, hends⟩
    · exact hsame
    · -- who writes is at its end with a success, and stays there
      have hprogram : w.program = components spelling := by
        obtain ⟨visit', hvisit', hsame⟩ := program_run hlooked later
        rw [h] at hvisit'
        cases hvisit'
        rw [← hreader, hsame]
        rfl
      rcases reader_standing hw hprogram with ⟨u, stage, -, hstanding⟩ | ⟨result, hended⟩
      · rw [hwriter] at hstanding
        cases hstanding
        obtain ⟨visit', hvisit', hended, -⟩ := ended_run hlooked hends later
        rw [h] at hvisit'
        cases hvisit'
        rw [hfailed] at hended
        cases hended
      · rw [hwriter] at hended
        cases hended

theorem unlooked (h : (after turns).visit? id = some visit)
    (hreader : visit.program = components spelling) (hparse : Version.parse spelling = .ok v)
    (hnew : visit.looks = []) :
    visit.standing = .reading v.releaseName .checking .done ∧ visit.calls = [] := by
  refine visit_of_program (Q := fun visit => visit.looks = [] →
    visit.standing = .reading v.releaseName .checking .done ∧ visit.calls = []) ?_ ?_ h hreader hnew
  · intro _
    rw [components_of_ok hparse]
    exact ⟨rfl, rfl⟩
  · intro visit memo l _ hnew
    simp [Visit.looked] at hnew

/-- Who looks for what is remembered has it at once, whatever interrupts, and calls no store. -/
theorem remembered_found (h : (after earlier).visit? id = some visit)
    (hreader : visit.program = components spelling) (hparse : Version.parse spelling = .ok v)
    (hnew : visit.looks = []) (hget : (after earlier).memo.get? v.releaseName = some c) (l : Look)
    (later : List (Turn Components)) :
    ∃ w, (after (earlier ++ .go id l :: later)).visit? id = some w ∧ w.result? = some (.ok c) ∧
      w.calls = [] := by
  obtain ⟨hstanding, hcalls⟩ := unlooked h hreader hparse hnew
  have hlook : visit.standing.look (after earlier).memo l =
      .answered (after earlier).memo (.done (.ok c)) := by
    simp only [hstanding, Standing.look, ComponentMemo.step, hget]
    rfl
  have hlooked : ((after earlier).step (.go id l)).visit? id =
      some (visit.looked (after earlier).memo l) := by
    rw [visit?_go h, if_pos rfl]
  have hended : (visit.looked (after earlier).memo l).standing = .ended (.ok c) := by
    rw [Visit.looked, hlook]
    rfl
  obtain ⟨w, hw, hwended, hwcalls⟩ := ended_run hlooked hended later
  refine ⟨w, ?_, ?_, ?_⟩
  · rw [after_append]
    exact hw
  · rw [Visit.result?, hwended]
    rfl
  · rw [hwcalls, Visit.looked, hcalls, hlook]
    rfl

/-! ### Stores that do not change their answers -/

/-- Whenever the store answers a call for a record, its answer is the one for that name. -/
def AnswersBy (turns : List (Turn Components))
    (answer : String → Except StorageError (Option Record)) : Prop :=
  ∀ earlier id l later visit key next, turns = earlier ++ .go id l :: later →
    (after earlier).visit? id = some visit → visit.standing = .reading key (.reading true) next →
    ∀ a, l.record = some a → a = answer key

theorem backed_unique {answer : String → Except StorageError (Option Record)}
    (h : AnswersBy turns answer) {d : Components} (hc : Backed turns key c)
    (hd : Backed turns key d) : c = d := by
  have hanswer : ∀ {r}, Returned turns key r → .ok (some r) = answer key := by
    rintro r ⟨earlier, id, l, later, visit, next, hturns, -, hrecord, hvisit, hstanding, -⟩
    exact h earlier id l later visit key next hturns hvisit hstanding _ hrecord
  obtain ⟨r, hr, hrc⟩ := hc
  obtain ⟨q, hq, hqd⟩ := hd
  have hsame := (hanswer hr).trans (hanswer hq).symm
  cases hsame
  rw [hrc] at hqd
  exact Except.ok.inj hqd

/-! ### All readings -/

/-- A reading of the components of a release, however it is spelled. -/
def IsReader (program : Engine Components) : Prop := ∃ spelling, program = components spelling

/-- A reading of the release that has this name, in any spelling, has returned components. -/
def Succeeds (turns : List (Turn Components)) (key : String) (c : Components) : Prop :=
  ∃ id visit spelling v, (after turns).visit? id = some visit ∧
    visit.program = components spelling ∧ Version.parse spelling = .ok v ∧ v.releaseName = key ∧
    visit.result? = some (.ok c)

theorem ended_of_result? {result : Except GateError Components}
    (h : visit.result? = some result) : visit.standing = .ended result := by
  obtain ⟨program, standing, looks, calls, notes⟩ := visit
  cases standing <;> cases h
  rfl

theorem Succeeds.backed (h : Succeeds turns key c) : Backed turns key c := by
  obtain ⟨id, visit, spelling, v, hvisit, hreader, hparse, rfl, hresult⟩ := h
  exact backed_result hvisit hreader hparse (ended_of_result? hresult)

theorem backed_canonical (h : ∀ program, .enter program ∈ turns → IsReader program)
    (hbacked : Backed turns key c) : ∃ v, Version.parse key = .ok v ∧ v.releaseName = key := by
  obtain ⟨r, ⟨earlier, id, l, later, visit, next, rfl, -, -, hvisit, hstanding, -⟩, -⟩ := hbacked
  obtain ⟨spelling, hreader⟩ := h visit.program (List.mem_append_left _ (entered earlier hvisit))
  rcases reader_standing hvisit hreader with ⟨v, stage, hparse, hreading⟩ | ⟨result, hended⟩
  · rw [hstanding] at hreading
    cases hreading
    exact ⟨v, Version.parse_releaseName hparse, rfl⟩
  · rw [hstanding] at hended
    cases hended

/-- What is said of the memo and of the readings that share it, in any interleaving of them. -/
structure MemoSound (turns : List (Turn Components)) : Prop where
  canonical : (∀ program, .enter program ∈ turns → IsReader program) →
    ∀ key c, (after turns).memo.get? key = some c →
      ∃ v, Version.parse key = .ok v ∧ v.releaseName = key
  sourced : ∀ key c, (after turns).memo.get? key = some c → ∃ r, Returned turns key r ∧ MapOf r c
  kept : ∀ earlier later key c, turns = earlier ++ later →
    (after earlier).memo.get? key = some c → (after turns).memo.get? key = some c
  entering : ∀ earlier later program, turns = earlier ++ .enter program :: later →
    (after (earlier ++ [.enter program])).memo = (after earlier).memo
  failing : ∀ earlier id l later visit error, turns = earlier ++ .go id l :: later →
    (after turns).visit? id = some visit → IsReader visit.program →
    visit.result? = some (.error error) →
    (after (earlier ++ [.go id l])).memo = (after earlier).memo
  found : ∀ earlier id l later visit spelling v c, turns = earlier ++ .go id l :: later →
    (after earlier).visit? id = some visit → visit.program = components spelling →
    visit.looks = [] → Version.parse spelling = .ok v →
    (after earlier).memo.get? v.releaseName = some c →
    ∃ w, (after turns).visit? id = some w ∧ w.result? = some (.ok c) ∧ w.calls = []
  agreeing : ∀ answer, AnswersBy turns answer → ∀ key c c', Succeeds turns key c →
    Succeeds turns key c' → c = c'

theorem memo_sound (turns : List (Turn Components)) : MemoSound turns where
  canonical h key c hget := backed_canonical h ((sourced_after turns).memo key c hget)
  sourced key c hget := by
    obtain ⟨r, hreturned, hcomponents⟩ := (sourced_after turns).memo key c hget
    exact ⟨r, hreturned, Components.mapOf_ofRecord hcomponents⟩
  kept := by
    rintro earlier later key c rfl hget
    rw [after_append]
    exact kept_run hget later
  entering := by
    rintro earlier later program -
    rw [after_concat]
    rfl
  failing := by
    rintro earlier id l later visit error rfl hvisit ⟨spelling, hreader⟩ hresult
    exact memo_of_failed hvisit hreader (ended_of_result? hresult)
  found := by
    rintro earlier id l later visit spelling v c rfl hvisit hreader hnew hparse hget
    exact remembered_found hvisit hreader hparse hnew hget l later
  agreeing answer hanswers key c c' hc hc' := backed_unique hanswers hc.backed hc'.backed

/-- Two readings of one release under way at once, told different records: what is written first is
remembered, and each reading returns what it was told. -/
example :
    let told (version : String) : Look := { record := some (.ok (some {
      kind := releaseKind
      name := "v1.0.0"
      spec := .obj [("components", .arr [.obj [("name", .str "app"), ("version", .str version)]])] })) }
    let s := after [.enter (components "1.0"), .enter (components "v1.0.0"), .go 0 {}, .go 1 {},
      .go 0 {}, .go 1 {}, .go 0 (told "1"), .go 1 (told "2"), .go 1 {}, .go 0 {}]
    (s.memo, (s.visit? 0).bind Visit.result?, (s.visit? 1).bind Visit.result?) =
      ([("v1.0.0", [("app", "2")])], some (.ok [("app", "1")]), some (.ok [("app", "2")])) := rfl

end Readers

end Catalog

end ClusterGate
