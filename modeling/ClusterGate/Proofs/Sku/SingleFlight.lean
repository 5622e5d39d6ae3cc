import ClusterGate.Proofs.Sku.Provenance

/-!
# One call of the inventory at a time

For each region at most one call is under way, none begins once there is a table that is not empty, and
so at most one answer brings one. A lookup that finds its table at once is over with this look.
Main statement: `singleFlight_after`.
-/

namespace ClusterGate

/-- Whether a listing with SKUs arrives for a region. -/
def Occurrence.brings (region : String) : Occurrence → Bool
  | .arrived name listing => name == region && !listing.isEmpty
  | _ => false

theorem Occurrence.of_brings {region : String} {o : Occurrence} (h : o.brings region = true) :
    ∃ listing, o = .arrived region listing ∧ listing ≠ [] := by
  match o, h with
  | .arrived name listing, h =>
    rw [brings, Bool.and_eq_true, beq_iff_eq] at h
    obtain ⟨rfl, hne⟩ := h
    exact ⟨listing, rfl, by simpa using hne⟩

theorem RegionCache.Transition.tables_of_fetched {region : String} {id : LookupId}
    {c c' : RegionCache} {stage' : Lookup} {listing : List Sku} {notes : List Note}
    (t : Transition region id c (.fetched listing) c' stage' notes) :
    c'.tables = c.tables.insert region (RegionTable.ofListing listing) := by
  cases t
  rfl

namespace Traffic

open RegionCache

variable {α : Type} {s s' : Traffic α} {m : Move α} {id i : LookupId} {region name : String}
  {stage stage' : Lookup} {table : RegionTable} {listing : List Sku} {notes : List Note}

/-! ### What is seen of one step -/

theorem of_called_mem_between (h : .called region ∈ Occurrence.between name stage stage') :
    region = name ∧ stage = .fetching false := by
  unfold Occurrence.between at h
  split at h
  next =>
    cases List.mem_singleton.mp h
    exact ⟨rfl, rfl⟩
  next => simp at h
  next => simp at h
  next => cases h

theorem of_stored_mem_between (h : .stored region table ∈ Occurrence.between name stage stage') :
    region = name ∧ stage' = .done (.ok table) := by
  unfold Occurrence.between at h
  split at h
  next => simp at h
  next => simp at h
  next =>
    cases List.mem_singleton.mp h
    exact ⟨rfl, rfl⟩
  next => cases h

theorem length_between : (Occurrence.between name stage stage').length ≤ 1 := by
  unfold Occurrence.between
  split <;> simp

/-! ### The history and the tables -/

/-- A listing with SKUs that has arrived is in the table of its region, or about to be. -/
def Settled (s : Traffic α) (region : String) : Prop :=
  (∃ table, s.cache.stored? region = some table) ∨
    ∃ id listing, listing ≠ [] ∧ s.stage? region id = some (.fetched listing)

/-- The history is that of single flights. -/
structure Recorded (s : Traffic α) : Prop where
  stored : ∀ region table, .stored region table ∈ s.history → table ≠ [] →
    s.cache.stored? region = some table
  settled : ∀ region listing, .arrived region listing ∈ s.history → listing ≠ [] →
    s.Settled region
  quiet : s.history.Pairwise fun a b =>
    ∀ region table, a = .stored region table → table ≠ [] → b ≠ .called region
  once : ∀ region, s.history.countP (Occurrence.brings region) ≤ 1

theorem Recorded.aside (h : Recorded s) (haside : Aside s s') : Recorded s' where
  stored region table := by
    rw [haside.history, haside.cache]
    exact h.stored region table
  settled region listing harrived hne := by
    rw [haside.history] at harrived
    rcases h.settled region listing harrived hne with hstored | ⟨id, listing, hne, hfetched⟩
    · exact Or.inl (haside.cache ▸ hstored)
    · rcases haside.places region id with hsame | ⟨hnone, _⟩
      · exact Or.inr ⟨id, listing, hne, hsame.trans hfetched⟩
      · rw [hnone] at hfetched
        contradiction
  quiet := by
    rw [haside.history]
    exact h.quiet
  once region := by
    rw [haside.history]
    exact h.once region

section Look

variable (h : Recorded s) (horderly : Orderly s)
  (hlooked : Looked s s' name id stage stage' notes)
include h horderly hlooked

theorem stored_of_look (hseen : .stored region table ∈ s'.history) (hne : table ≠ []) :
    s'.cache.stored? region = some table := by
  rw [hlooked.history, List.mem_append] at hseen
  rcases hseen with hseen | hseen
  · have hstored := h.stored region table hseen hne
    rw [stored?_of_tables (hlooked.tables_of_stored horderly hstored), hstored]
  · obtain ⟨rfl, rfl⟩ := of_stored_mem_between hseen
    exact hlooked.transition.vouches table rfl hne

theorem settled_of_look (hseen : .arrived region listing ∈ s'.history) (hne : listing ≠ []) :
    s'.Settled region := by
  rw [hlooked.history, List.mem_append] at hseen
  rcases hseen with hseen | hseen
  · rcases h.settled region listing hseen hne with ⟨table, hstored⟩ | ⟨i, held, hheld, hfetched⟩
    · have hkept := stored?_of_tables (hlooked.tables_of_stored horderly hstored)
      exact Or.inl ⟨table, hkept.trans hstored⟩
    · by_cases hhere : region = name ∧ i = id
      · obtain ⟨rfl, rfl⟩ := hhere
        obtain rfl : stage = .fetched held := Option.some.inj (hlooked.before.symm.trans hfetched)
        have htables := hlooked.transition.tables_of_fetched
        refine Or.inl ⟨RegionTable.ofListing held, stored?_eq_some.mpr ⟨?_, ?_⟩⟩
        · rw [htables, Dict.get?_insert_self]
        · exact fun hnil => hheld (RegionTable.ofListing_eq_nil.mp hnil)
      · exact Or.inr ⟨i, held, hheld, (hlooked.others region i hhere).trans hfetched⟩
  · obtain ⟨rfl, _, rfl⟩ := of_arrived_mem_between hseen
    exact Or.inr ⟨id, listing, hne, hlooked.after⟩

/-- Who calls has found no table. -/
theorem quiet_of_look : s'.history.Pairwise fun a b =>
    ∀ region table, a = .stored region table → table ≠ [] → b ≠ .called region := by
  rw [hlooked.history, List.pairwise_append]
  refine ⟨h.quiet, ?_, ?_⟩
  · match hlist : Occurrence.between name stage stage', length_between with
    | [], _ => exact List.Pairwise.nil
    | [o], _ => exact List.pairwise_singleton _ _
  · rintro _ hseen _ hcalled region table rfl hne rfl
    obtain ⟨rfl, rfl⟩ := of_called_mem_between hcalled
    have hstored := h.stored region table hseen hne
    rw [horderly.missing region id (by rw [hlooked.any_before]; rfl)] at hstored
    contradiction

/-- Whose answer comes is the only one at the lock, so nothing has come before. -/
theorem once_of_look : s'.history.countP (Occurrence.brings region) ≤ 1 := by
  rw [hlooked.history, List.countP_append]
  by_cases hbrings : ∃ o ∈ Occurrence.between name stage stage', o.brings region = true
  · obtain ⟨o, ho, hbrings⟩ := hbrings
    obtain ⟨listing, rfl, _⟩ := Occurrence.of_brings hbrings
    obtain ⟨rfl, rfl, rfl⟩ := of_arrived_mem_between ho
    have hfetcher : (s.stage? region id).any Lookup.isFetcher = true := by
      rw [hlooked.any_before]
      rfl
    have hnone : s.history.countP (Occurrence.brings region) = 0 := by
      -- had a listing come before, its table would be there or its lookup hold the lock
      rw [List.countP_eq_zero]
      intro o ho hbrings
      obtain ⟨listing, rfl, hne⟩ := Occurrence.of_brings hbrings
      rcases h.settled region listing ho hne with ⟨table, hstored⟩ | ⟨i, held, _, hfetched⟩
      · rw [horderly.missing region id hfetcher] at hstored
        contradiction
      · have hholder : (s.stage? region i).any Lookup.isHolder = true := by
          rw [hfetched]
          rfl
        obtain rfl := horderly.alone hholder (any_isHolder_of_isFetcher hfetcher)
        rw [hlooked.before] at hfetched
        cases hfetched
    rw [hnone, Nat.zero_add]
    exact Nat.le_trans List.countP_le_length length_between
  · have hnone : (Occurrence.between name stage stage').countP (Occurrence.brings region) = 0 := by
      rw [List.countP_eq_zero]
      exact fun o ho hb => hbrings ⟨o, ho, hb⟩
    rw [hnone]
    exact h.once region

theorem Recorded.look : Recorded s' where
  stored _ _ := stored_of_look h horderly hlooked
  settled _ _ := settled_of_look h horderly hlooked
  quiet := quiet_of_look h horderly hlooked
  once _ := once_of_look h horderly hlooked

end Look

theorem Recorded.step (h : Recorded s) (horderly : Orderly s) (hstep : Step s m s') :
    Recorded s' := by
  rcases hstep.aside_or_looked with haside | ⟨_, _, _, _, _, hlooked, _⟩
  · exact h.aside haside
  · exact h.look horderly hlooked

theorem recorded_empty : Recorded ({} : Traffic α) where
  stored _ _ h := by cases h
  settled _ _ h := by cases h
  quiet := List.Pairwise.nil
  once _ := Nat.zero_le 1

theorem recorded_after (moves : List (Move α)) : Recorded (after moves) := by
  have hboth := run_induction (P := fun s : Traffic α => Orderly s ∧ Recorded s)
    (fun _ _ _ hboth hstep => ⟨hboth.1.step hstep, hboth.2.step hboth.1 hstep⟩)
    moves ⟨orderly_empty, recorded_empty⟩
  exact hboth.2

/-! ### Single flights -/

/-- A lookup that finds its table at once is over, and neither the locks nor the inventory have seen
it. -/
theorem step_of_stored {next : Except GateError RegionTable → Engine α}
    (here : s.progress? id = some (.looking region .checking next))
    (hstored : s.cache.stored? region = some table) (interrupt : Option Interrupt)
    (answer : Option (Except StorageError (List Sku))) :
    (s.step (.go id interrupt answer)).progress? id = some (.running (next (.ok table))) ∧
      (s.step (.go id interrupt answer)).cache = s.cache ∧
      (s.step (.go id interrupt answer)).history = s.history := by
  simp only [step, here, RegionCache.step, hstored]
  refine ⟨?_, rfl, List.append_nil _⟩
  rw [progress?_resume, if_pos rfl]
  exact congrArg _ here

/-- What the inventory relies on, after some moves. -/
structure SingleFlight (moves : List (Move α)) : Prop where
  /-- At most one call is under way for a region. -/
  alone : ∀ region i j, (after moves).stage? region i = some (.fetching true) →
    (after moves).stage? region j = some (.fetching true) → i = j
  /-- No call is under way when there is a table that is not empty. -/
  settled : ∀ region table i, (after moves).cache.tables.get? region = some table → table ≠ [] →
    (after moves).stage? region i ≠ some (.fetching true)
  /-- No call begins once such a table was stored. -/
  quiet : ∀ region table earlier later,
    (after moves).history = earlier ++ .stored region table :: later → table ≠ [] →
    .called region ∉ later
  /-- At most one listing with SKUs arrives for a region. -/
  once : ∀ region, (after moves).history.countP (Occurrence.brings region) ≤ 1
  /-- Who finds the table at the first look is over with one move, leaving locks and inventory
  alone. -/
  found : ∀ id region table next interrupt answer,
    (after moves).progress? id = some (.looking region .checking next) →
    (after moves).cache.tables.get? region = some table → table ≠ [] →
    (after (moves ++ [.go id interrupt answer])).progress? id =
        some (.running (next (.ok table))) ∧
      (after (moves ++ [.go id interrupt answer])).cache = (after moves).cache ∧
      (after (moves ++ [.go id interrupt answer])).history = (after moves).history

theorem singleFlight_after (moves : List (Move α)) : SingleFlight moves := by
  have horderly := orderly_after moves
  have hrecorded := recorded_after moves
  have hfetcher : ∀ {region i}, (after moves).stage? region i = some (.fetching true) →
      ((after moves).stage? region i).any Lookup.isFetcher = true := by
    intro region i hstage
    rw [hstage]
    rfl
  refine ⟨?alone, ?settled, ?quiet, hrecorded.once, ?found⟩
  case alone =>
    intro region i j hi hj
    exact horderly.alone (any_isHolder_of_isFetcher (hfetcher hi))
      (any_isHolder_of_isFetcher (hfetcher hj))
  case settled =>
    intro region table i hget hne hstage
    have hstored := stored?_eq_some.mpr ⟨hget, hne⟩
    rw [horderly.missing region i (hfetcher hstage)] at hstored
    contradiction
  case quiet =>
    intro region table earlier later hhistory hne hcalled
    have hquiet := hrecorded.quiet
    rw [hhistory, List.pairwise_append, List.pairwise_cons] at hquiet
    exact hquiet.2.1.1 _ hcalled region table rfl hne rfl
  case found =>
    intro id region table next interrupt answer here hget hne
    rw [after_concat]
    exact step_of_stored here (stored?_eq_some.mpr ⟨hget, hne⟩) interrupt answer

end Traffic

end ClusterGate
