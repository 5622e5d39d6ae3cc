import ClusterGate.Proofs.Sku.WriteOnce

/-!
# Runs without one of the calls

A call that writes no table might as well have made no move at all: there is a run of the others alone
that gets every one of them where it got, with the same tables. It leaves out the moves of the call,
and those at which someone waited for it. Main statement:
`dispensable_of_neverWrites`.
-/

namespace ClusterGate

namespace RegionCache

variable {c c' d : RegionCache} {region other : String} {id i : LookupId}
  {interrupt : Option Interrupt} {answer : Option (Except StorageError (List Sku))}
  {stage stage' : Lookup} {notes : List Note}

/-- The second cache is the first one without a lookup in its queues. -/
structure Without (id : LookupId) (c c' : RegionCache) : Prop where
  tables : c'.tables = c.tables
  queue : ∀ region, c'.queue region = (c.queue region).filter fun i => i ≠ id

theorem Without.stored? (h : Without id c c') : c'.stored? region = c.stored? region :=
  stored?_of_tables (congrArg (Dict.get? region) h.tables)

theorem Without.holds (h : Without id c c') (hne : i ≠ id) (hholds : c.holds region i = true) :
    c'.holds region i = true := by
  obtain ⟨rest, hrest⟩ := List.head?_eq_some_iff.mp (holds_iff.mp hholds)
  rw [holds_iff, h.queue, hrest, List.filter_cons_of_pos (by simpa using hne)]
  rfl

theorem Without.join (h : Without id c c') (hne : i ≠ id) :
    Without id (c.join region i) (c'.join region i) where
  tables := h.tables
  queue other := by
    by_cases hregion : other = region
    · subst hregion
      rw [queue_join, queue_join, h.queue, List.filter_append, List.filter_singleton]
      simp [hne]
    · rw [queue_join_of_ne hregion, queue_join_of_ne hregion, h.queue]

theorem Without.leave (h : Without id c c') : Without id (c.leave region i) (c'.leave region i) where
  tables := h.tables
  queue other := by
    by_cases hregion : other = region
    · subst hregion
      rw [queue_leave, queue_leave, h.queue, List.erase_filter]
    · rw [queue_leave_of_ne hregion, queue_leave_of_ne hregion, h.queue]

theorem Without.store {table : RegionTable} (h : Without id c c') :
    Without id (c.store region table) (c'.store region table) where
  tables := by
    rw [RegionCache.store, RegionCache.store, h.tables]
  queue := h.queue

theorem step_without (h : Without id c c') (hne : i ≠ id)
    (hstep : c.step region i interrupt answer stage = some (d, stage', notes)) :
    ∃ d', c'.step region i interrupt answer stage = some (d', stage', notes) ∧ Without id d d' := by
  cases stage with
  | checking =>
    simp only [step, h.stored?]
    cases found : c.stored? region with
    | some table | none =>
      simp only [step, found] at hstep
      cases hstep
      exact ⟨_, rfl, h⟩
  | missed =>
    cases interrupt with
    | some interrupt =>
      cases hstep
      exact ⟨_, rfl, h⟩
    | none =>
      cases hstep
      exact ⟨_, rfl, h.join hne⟩
  | queued =>
    cases interrupt with
    | some interrupt =>
      cases hstep
      exact ⟨_, rfl, h.leave⟩
    | none =>
      cases first : c.holds region i with
      | true =>
        simp only [step, first] at hstep
        cases hstep
        refine ⟨c', ?_, h⟩
        simp only [step, h.holds hne first]
        rfl
      | false =>
        simp only [step, first] at hstep
        cases hstep
  | locked =>
    simp only [step, h.stored?]
    cases found : c.stored? region with
    | some table =>
      simp only [step, found] at hstep
      cases hstep
      exact ⟨_, rfl, h.leave⟩
    | none =>
      simp only [step, found] at hstep
      cases hstep
      exact ⟨_, rfl, h⟩
  | fetching called =>
    cases interrupt with
    | some interrupt =>
      cases hstep
      exact ⟨_, rfl, h.leave⟩
    | none =>
      cases called with
      | false =>
        cases hstep
        exact ⟨_, rfl, h⟩
      | true =>
        rcases answer with _ | ⟨e | listing⟩
        · cases hstep
        · cases hstep
          exact ⟨_, rfl, h.leave⟩
        · cases hstep
          exact ⟨_, rfl, h⟩
  | fetched listing =>
    cases hstep
    exact ⟨_, rfl, h.store.leave⟩
  | done => cases hstep

theorem Transition.filter_queue {id : LookupId}
    (t : Transition region id c stage d stage' notes) :
    ((d.queue other).filter fun i => i ≠ id) = (c.queue other).filter fun i => i ≠ id := by
  by_cases hregion : other = region
  · subst hregion
    rcases t.queue_cases with ⟨hqueue, _⟩ | ⟨hqueue, _⟩ | ⟨hqueue, _⟩
    · rw [hqueue]
    · rw [hqueue, List.filter_append]
      simp
    · rw [hqueue, ← List.erase_filter, List.erase_of_not_mem]
      simp
  · rw [t.queue_of_ne hregion]

end RegionCache

namespace Traffic

open RegionCache

variable {α : Type} {s s' t t' : Traffic α} {m : Move α} {id i : LookupId} {p q : Progress α}

/-- The second traffic is the first one with a call back at its beginning. -/
structure Bypassed (id : LookupId) (s s' : Traffic α) : Prop where
  cache : RegionCache.Without id s.cache s'.cache
  length : s'.calls.length = s.calls.length
  program : ∀ i, s'.program? i = s.program? i
  progress : ∀ i, i ≠ id → s'.progress? i = s.progress? i

theorem bypassed_empty : Bypassed id ({} : Traffic α) {} where
  cache := ⟨rfl, fun _ => rfl⟩
  length := rfl
  program _ := rfl
  progress _ _ := rfl

theorem program?_of_resume (hcalls : t.calls = (s.resume i p).calls) (j : LookupId) :
    t.program? j = s.program? j := by
  rw [program?, hcalls, resume, List.getElem?_modify, program?]
  cases s.calls[j]? with
  | none => rfl
  | some call =>
    by_cases hj : i = j
    · simp [hj]
    · simp [hj]

theorem progress?_of_resume (hcalls : t.calls = (s.resume i p).calls) (j : LookupId) :
    t.progress? j = if j = i then (s.progress? i).map fun _ => p else s.progress? j := by
  rw [← progress?_resume, progress?, hcalls, ← progress?]

theorem length_of_resume (hcalls : t.calls = (s.resume i p).calls) :
    t.calls.length = s.calls.length := by
  rw [hcalls, resume, List.length_modify]

/-- When another call goes on, it goes on in the same way. -/
theorem Bypassed.resume (h : Bypassed id s s') (hne : i ≠ id)
    (hcache : RegionCache.Without id t.cache t'.cache) (hcalls : t.calls = (s.resume i q).calls)
    (hcalls' : t'.calls = (s'.resume i q).calls) : Bypassed id t t' where
  cache := hcache
  length := by
    rw [length_of_resume hcalls, length_of_resume hcalls', h.length]
  program j := by
    rw [program?_of_resume hcalls, program?_of_resume hcalls', h.program]
  progress j hj := by
    rw [progress?_of_resume hcalls, progress?_of_resume hcalls', h.progress i hne, h.progress j hj]

/-- When the call itself goes on without writing a table, nothing changes for the others. -/
theorem Bypassed.own (h : Bypassed id s s') {interrupt : Option Interrupt}
    {answer : Option (Except StorageError (List Sku))}
    (hquiet : (s.step (.go id interrupt answer)).cache.tables = s.cache.tables) :
    Bypassed id (s.step (.go id interrupt answer)) s' := by
  have hstep := step_step s (.go id interrupt answer)
  generalize s.step (.go id interrupt answer) = t at hstep hquiet
  have hresume : ∀ q, t.calls = (s.resume id q).calls →
      (∀ region, ((t.cache.queue region).filter fun i => i ≠ id) =
        (s.cache.queue region).filter fun i => i ≠ id) → Bypassed id t s' := by
    intro q hcalls hqueue
    refine ⟨⟨?_, ?_⟩, ?_, ?_, ?_⟩
    · rw [hquiet, h.cache.tables]
    · intro region
      rw [hqueue, h.cache.queue]
    · rw [length_of_resume hcalls, h.length]
    · intro j
      rw [program?_of_resume hcalls, h.program]
    · intro j hj
      rw [h.progress j hj, progress?_of_resume hcalls, if_neg hj]
  cases hstep with
  | idle => exact h
  | note => exact hresume _ rfl fun _ => rfl
  | ask => exact hresume _ rfl fun _ => rfl
  | look _ stepped => exact hresume _ rfl fun _ => (transition_of_step stepped).filter_queue

/-- When another call makes a move, it makes the same one, unless it waits. -/
theorem Bypassed.other (h : Bypassed id s s') (hother : m.isOf id = false) :
    Bypassed id (s.step m) s' ∨ Bypassed id (s.step m) (s'.step m) := by
  have hstep := step_step s m
  generalize s.step m = t at hstep
  cases hstep with
  | idle =>
    -- it waits, perhaps for the call itself, and its move is left out
    exact Or.inl h
  | enter program =>
    refine Or.inr ⟨h.cache, ?_, ?_, ?_⟩
    · simp [step, h.length]
    · intro j
      simp only [step, program?, List.getElem?_append, h.length]
      split
      next => exact h.program j
      next => rfl
    · intro j hj
      rw [step, progress?_enter, progress?_enter, h.length, h.progress j hj]
  | @note j _ _ n next here =>
    have hne : j ≠ id := by simpa [Move.isOf] using hother
    have here' := (h.progress j hne).trans here
    refine Or.inr ?_
    simp only [step, here']
    exact h.resume hne h.cache rfl rfl
  | @ask j _ _ name next here =>
    have hne : j ≠ id := by simpa [Move.isOf] using hother
    have here' := (h.progress j hne).trans here
    refine Or.inr ?_
    simp only [step, here']
    exact h.resume hne h.cache rfl rfl
  | @look j interrupt answer name stage stage' next cache notes here stepped =>
    have hne : j ≠ id := by simpa [Move.isOf] using hother
    have here' := (h.progress j hne).trans here
    obtain ⟨cache', stepped', hcache⟩ := step_without h.cache hne stepped
    refine Or.inr ?_
    simp only [step, here', stepped']
    exact h.resume hne hcache rfl rfl

/-- The call has written a table in none of its moves. -/
def NeverWrites (moves : List (Move α)) (id : LookupId) : Prop :=
  ∀ earlier interrupt answer later, moves = earlier ++ .go id interrupt answer :: later →
    (after (earlier ++ [.go id interrupt answer])).cache.tables = (after earlier).cache.tables

theorem NeverWrites.of_append {moves later : List (Move α)} (h : NeverWrites (moves ++ later) id) :
    NeverWrites moves id := by
  intro earlier interrupt answer rest hmoves
  refine h earlier interrupt answer (rest ++ later) ?_
  rw [hmoves, List.append_assoc, List.cons_append]

/-- The run could have gone without the call. -/
def Dispensable (moves : List (Move α)) (id : LookupId) : Prop :=
  ∃ others : List (Move α), others.Sublist moves ∧ (∀ m ∈ others, m.isOf id = false) ∧
    Bypassed id (after moves) (after others)

theorem dispensable_of_neverWrites (moves : List (Move α)) (h : NeverWrites moves id) :
    Dispensable moves id := by
  induction moves using List.reverseRecOn with
  | nil => exact ⟨[], .slnil, fun m hm => absurd hm List.not_mem_nil, bypassed_empty⟩
  | append_singleton moves m ih =>
    obtain ⟨others, hsublist, hnone, hbypassed⟩ := ih h.of_append
    have hlonger : others.Sublist (moves ++ [m]) := hsublist.trans (List.sublist_append_left _ _)
    rw [Dispensable, after_concat]
    cases hown : m.isOf id with
    | false =>
      rcases hbypassed.other hown with hwaits | hmoves
      · exact ⟨others, hlonger, hnone, hwaits⟩
      · refine ⟨others ++ [m], hsublist.append (List.Sublist.refl _), ?_, ?_⟩
        · intro m' hm'
          rcases List.mem_append.mp hm' with hm' | hm'
          · exact hnone m' hm'
          · rw [List.mem_singleton.mp hm', hown]
        · rw [after_concat]
          exact hmoves
    | true =>
      match m with
      | .go i interrupt answer =>
        obtain rfl : i = id := beq_iff_eq.mp hown
        have hquiet := h moves interrupt answer [] rfl
        rw [after_concat] at hquiet
        exact ⟨others, hlonger, hnone, hbypassed.own hquiet⟩

end Traffic

end ClusterGate
