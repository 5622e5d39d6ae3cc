import ClusterGate.Proofs.Sku.Traffic
import Mathlib.Algebra.BigOperators.Group.List.Basic
import Mathlib.Algebra.GroupWithZero.Nat

/-!
# A census of lookups

Each lookup that is made since some state is either under way or over, and is counted once, by how far
it has come. If a step leaves something just when it takes its lookup past some point, then as much is
left as there are lookups past this point, in whatever order the steps of many lookups come. Main
statement: `countP_lookups`.
-/

namespace ClusterGate

theorem countP_cons_toNat {α : Type} (p : α → Bool) (a : α) (l : List α) :
    (a :: l).countP p = l.countP p + (p a).toNat := by
  rw [List.countP_cons]
  cases p a <;> rfl

theorem countP_eq_sum {α : Type} (p : α → Bool) (l : List α) :
    l.countP p = (l.map fun a => (p a).toNat).sum := by
  induction l with
  | nil => rfl
  | cons a rest ih => rw [countP_cons_toNat, ih, List.map_cons, List.sum_cons, Nat.add_comm]

/-- How far a lookup has come. -/
inductive Journey where
  | underWay (stage : Lookup)
  /-- At its end, with the last stage before it. -/
  | ended (last : Lookup) (result : Except GateError RegionTable)

/-- A lookup under way is not at its end, and one that is over can have ended so. -/
def Journey.Possible : Journey → Prop
  | .underWay stage => stage.pending? = some stage
  | .ended last result =>
    ∃ region id c c' notes, RegionCache.Transition region id c last c' (.done result) notes

/-- A step of a lookup, and the notes that it leaves. -/
structure Passage where
  region : String
  stage : Lookup
  next : Lookup
  notes : List Note

namespace Passage

def before (p : Passage) : Journey := .underWay p.stage

def after (p : Passage) : Journey :=
  match p.next with
  | .done result => .ended p.stage result
  | stage => .underWay stage

/-- The journey that ends with the step. -/
def ended? (p : Passage) : Option Journey :=
  match p.next with
  | .done result => some (.ended p.stage result)
  | _ => none

def Possible (p : Passage) : Prop :=
  ∃ id c c', RegionCache.Transition p.region id c p.stage c' p.next p.notes

/-- Something is left just by the steps that take a lookup past a point. -/
structure Marks (left : Passage → Nat) (past : Journey → Bool) : Prop where
  start : past (.underWay .checking) = false
  step : ∀ {region id c stage c' next notes},
    RegionCache.Transition region id c stage c' next notes →
    (past (.underWay stage)).toNat + left ⟨region, stage, next, notes⟩ =
      (past (after ⟨region, stage, next, notes⟩)).toNat

theorem Possible.after {p : Passage} (h : p.Possible) : p.after.Possible := by
  obtain ⟨region, stage, next, notes⟩ := p
  obtain ⟨id, c, c', t⟩ := h
  cases next with
  | done result => exact ⟨region, id, c, c', notes, t⟩
  | _ => rfl

end Passage

/-- The lookup that a call is in. -/
def Progress.journey? {α : Type} : Progress α → Option Journey
  | .running _ => none
  | .looking _ stage _ => some (.underWay stage)

def Call.journey? {α : Type} (call : Call α) : Option Journey := call.progress.journey?

theorem Progress.journey?_after {α : Type} {p : Passage}
    {next : Except GateError RegionTable → Engine α} :
    p.ended?.toList ++ (Progress.after p.region next p.next).journey?.toList = [p.after] := by
  obtain ⟨region, stage, stage', notes⟩ := p
  cases stage' <;> rfl

namespace Traffic

variable {α : Type} {s s' : Traffic α} {m : Move α} {id : LookupId}

/-- The lookups under way, in the order of their calls. -/
def underWay (s : Traffic α) : List Journey := s.calls.filterMap Call.journey?

/-- The step of a lookup that a move brings about. -/
def passage? (s : Traffic α) : Move α → Option Passage
  | .enter _ => none
  | .go id interrupt answer => match s.progress? id with
    | some (.looking region stage _) =>
      (s.cache.step region id interrupt answer stage).map fun (_, next, notes) =>
        ⟨region, stage, next, notes⟩
    | _ => none

def passages : Traffic α → List (Move α) → List Passage
  | _, [] => []
  | s, m :: rest => (s.passage? m).toList ++ passages (s.step m) rest

/-- The lookups that end in some moves, and then those that are under way after them. -/
def lookups : Traffic α → List (Move α) → List Journey
  | s, [] => s.underWay
  | s, m :: rest => ((s.passage? m).bind Passage.ended?).toList ++ lookups (s.step m) rest

/-! ### What a move does to the lookups under way -/

theorem underWay_resume {p q : Progress α} (here : s.progress? id = some p)
    (hcalls : s'.calls = (s.resume id q).calls) :
    ∃ others, s.underWay.Perm (p.journey?.toList ++ others) ∧
      s'.underWay.Perm (q.journey?.toList ++ others) := by
  obtain ⟨call, hcall, rfl⟩ := Option.map_eq_some_iff.mp here
  obtain ⟨hlt, -⟩ := List.getElem?_eq_some_iff.mp hcall
  obtain ⟨front, call', back, hsplit, hlength, hmodify⟩ :=
    List.exists_of_modify (fun call : Call α => { call with progress := q }) hlt
  obtain rfl : call' = call := by
    rw [hsplit, ← hlength, List.getElem?_append_right (Nat.le_refl _), Nat.sub_self] at hcall
    exact Option.some.inj hcall
  -- the journeys of the calls before and after this one stay
  have hmoved : ∀ call : Call α, ((front ++ call :: back).filterMap Call.journey?).Perm
      (call.journey?.toList ++ (front ++ back).filterMap Call.journey?) := by
    intro call
    refine (List.perm_middle.filterMap _).trans ?_
    cases hjourney : call.journey? with
    | none => rw [List.filterMap_cons_none hjourney]; rfl
    | some journey => rw [List.filterMap_cons_some hjourney]; rfl
  refine ⟨(front ++ back).filterMap Call.journey?, ?_, ?_⟩
  · rw [underWay, hsplit]
    exact hmoved call'
  · rw [underWay, hcalls, resume, hmodify]
    exact hmoved { call' with progress := q }

/-- No lookup goes on; one may begin, or a program may leave a note. -/
structure Unpassed (s s' : Traffic α) : Prop where
  ledger : s'.ledger = s.ledger ∨ ∃ id n next, s.progress? id = some (.running (.note n next)) ∧
    s'.ledger = s.ledger.note n
  history : s'.history = s.history
  underWay : s'.underWay.Perm s.underWay ∨ s'.underWay.Perm (.underWay .checking :: s.underWay)

/-- A lookup takes a step; the others stay where they are. -/
structure Passed (s s' : Traffic α) (p : Passage) : Prop where
  possible : p.Possible
  ledger : s'.ledger = s.ledger.notes p.notes
  history : s'.history = s.history ++ Occurrence.between p.region p.stage p.next
  underWay : ∃ others, s.underWay.Perm (p.before :: others) ∧
    (p.ended?.toList ++ s'.underWay).Perm (p.after :: others)

theorem unpassed_of_running {e : Engine α} {q : Progress α}
    (here : s.progress? id = some (.running e)) (hcalls : s'.calls = (s.resume id q).calls)
    (hledger : s'.ledger = s.ledger ∨ ∃ n next, e = .note n next ∧ s'.ledger = s.ledger.note n)
    (hhistory : s'.history = s.history)
    (hq : q.journey? = none ∨ q.journey? = some (.underWay .checking)) : Unpassed s s' := by
  obtain ⟨others, hbefore, hafter⟩ := underWay_resume here hcalls
  refine ⟨?_, hhistory, ?_⟩
  · rcases hledger with hsame | ⟨n, next, rfl, hnoted⟩
    · exact Or.inl hsame
    · exact Or.inr ⟨id, n, next, here, hnoted⟩
  · rcases hq with hq | hq
    · rw [hq] at hafter
      exact Or.inl (hafter.trans hbefore.symm)
    · rw [hq] at hafter
      exact Or.inr (hafter.trans (hbefore.symm.cons _))

theorem unpassed_refl (s : Traffic α) : Unpassed s s := ⟨Or.inl rfl, rfl, Or.inl (List.Perm.refl _)⟩

theorem passed_of_looking {name : String} {stage stage' : Lookup}
    {next : Except GateError RegionTable → Engine α} {cache : RegionCache} {notes : List Note}
    {interrupt : Option Interrupt} {answer : Option (Except StorageError (List Sku))}
    (here : s.progress? id = some (.looking name stage next))
    (stepped : s.cache.step name id interrupt answer stage = some (cache, stage', notes))
    (hcalls : s'.calls = (s.resume id (Progress.after name next stage')).calls)
    (hledger : s'.ledger = s.ledger.notes notes)
    (hhistory : s'.history = s.history ++ Occurrence.between name stage stage') :
    Passed s s' ⟨name, stage, stage', notes⟩ := by
  obtain ⟨others, hbefore, hafter⟩ := underWay_resume here hcalls
  refine ⟨⟨id, _, _, RegionCache.transition_of_step stepped⟩, hledger, hhistory, others, hbefore, ?_⟩
  refine (hafter.append_left _).trans (List.Perm.of_eq ?_)
  rw [← List.append_assoc]
  exact congrArg (· ++ others) (Progress.journey?_after (p := ⟨name, stage, stage', notes⟩))

theorem unpassed_or_passed (s : Traffic α) (m : Move α) :
    s.passage? m = none ∧ Unpassed s (s.step m) ∨
      ∃ p, s.passage? m = some p ∧ Passed s (s.step m) p := by
  cases m with
  | enter program =>
    refine Or.inl ⟨rfl, Or.inl rfl, rfl, Or.inl (List.Perm.of_eq ?_)⟩
    rw [underWay, step, List.filterMap_append]
    exact List.append_nil _
  | go id interrupt answer =>
    cases here : s.progress? id with
    | none =>
      simp only [passage?, step, here]
      exact Or.inl ⟨trivial, unpassed_refl s⟩
    | some p =>
      cases p with
      | looking name stage next =>
        cases stepped : s.cache.step name id interrupt answer stage with
        | none =>
          simp only [passage?, step, here, stepped]
          exact Or.inl ⟨rfl, unpassed_refl s⟩
        | some after =>
          simp only [passage?, step, here, stepped]
          exact Or.inr ⟨_, rfl, passed_of_looking here stepped rfl rfl rfl⟩
      | running e =>
        refine Or.inl ⟨by simp only [passage?, here], ?_⟩
        cases e with
        | note n next =>
          simp only [step, here]
          exact unpassed_of_running here rfl (Or.inr ⟨n, next, rfl, rfl⟩) rfl (Or.inl rfl)
        | ask q next =>
          cases q with
          | region name =>
            simp only [step, here]
            exact unpassed_of_running here rfl (Or.inl rfl) rfl (Or.inr rfl)
          | components | releases =>
            simp only [step, here]
            exact unpassed_refl s
        | done result =>
          simp only [step, here]
          exact unpassed_refl s

/-! ### All lookups since then -/

theorem possible_of_mem_lookups (h : ∀ j ∈ s.underWay, j.Possible) (moves : List (Move α)) :
    ∀ j ∈ s.lookups moves, j.Possible := by
  induction moves generalizing s with
  | nil => exact h
  | cons m rest ih =>
    rw [lookups, List.forall_mem_append]
    rcases unpassed_or_passed s m with ⟨hnone, hun⟩ | ⟨p, hsome, hpassed⟩
    · rw [hnone]
      refine ⟨fun j hj => absurd hj List.not_mem_nil, ih ?_⟩
      rcases hun.underWay with hsame | hbegun
      · exact fun j hj => h j (hsame.mem_iff.mp hj)
      · intro j hj
        rcases List.mem_cons.mp (hbegun.mem_iff.mp hj) with rfl | hj
        · rfl
        · exact h j hj
    · obtain ⟨others, hbefore, hafter⟩ := hpassed.underWay
      rw [hsome]
      have hnext : ∀ j ∈ p.ended?.toList ++ (s.step m).underWay, j.Possible := by
        intro j hj
        rcases List.mem_cons.mp (hafter.mem_iff.mp hj) with rfl | hj
        · exact hpassed.possible.after
        · exact h j (hbefore.mem_iff.mpr (List.mem_cons_of_mem _ hj))
      rw [List.forall_mem_append] at hnext
      exact ⟨hnext.1, ih hnext.2⟩

/-- The lookups past a point are those that were past it at first and as many more as was left. -/
theorem countP_lookups {left : Passage → Nat} {past : Journey → Bool} (h : Passage.Marks left past)
    (s : Traffic α) (moves : List (Move α)) :
    (s.lookups moves).countP past = s.underWay.countP past + ((s.passages moves).map left).sum := by
  -- the lookups of the first move are those that end in it; the others are under way for the rest
  induction moves generalizing s with
  | nil => rfl
  | cons m rest ih =>
    rw [lookups, passages, List.countP_append, ih, List.map_append, List.sum_append]
    rcases unpassed_or_passed s m with ⟨hnone, hun⟩ | ⟨p, hsome, hpassed⟩
    · have hsame : (s.step m).underWay.countP past = s.underWay.countP past := by
        rcases hun.underWay with hsame | hbegun
        · exact hsame.countP_eq past
        · rw [hbegun.countP_eq past, countP_cons_toNat, h.start]
          rfl
      rw [hnone, hsame]
      exact (Nat.zero_add _).trans (congrArg _ (Nat.zero_add _).symm)
    · obtain ⟨others, hbefore, hafter⟩ := hpassed.underWay
      have hthen := hbefore.countP_eq past
      have hnow := hafter.countP_eq past
      rw [countP_cons_toNat] at hthen
      rw [List.countP_append, countP_cons_toNat] at hnow
      obtain ⟨id, c, c', t⟩ := hpassed.possible
      have hgain : (past p.before).toNat + left p = (past p.after).toNat := h.step t
      rw [hsome, Option.bind_some, Option.toList_some, List.map_singleton, List.sum_singleton]
      omega

end Traffic

end ClusterGate
