import ClusterGate.Proofs.Sku.LockOrder
import Mathlib.Data.List.Induction

/-!
# Where tables come from, and that they stay

A table is the table of one listing that has arrived for its region. Only a lookup of the region that
holds a listing writes it, and it writes only where there is no table or an empty one.
Main statements: `sourced_after`, `Orderly.stored_run`, `Step.writer`.
-/

namespace ClusterGate.Traffic

open RegionCache

variable {α : Type} {s s' : Traffic α} {m : Move α} {id : LookupId} {region name : String}
  {stage stage' : Lookup} {table : RegionTable} {listing : List Sku} {notes : List Note}

/-! ### Who writes -/

/-- Who changes a table is a lookup of its region, with a listing at hand. -/
theorem Looked.writer (hlooked : Looked s s' name id stage stage' notes)
    (hchanged : s'.cache.tables.get? region ≠ s.cache.tables.get? region) :
    region = name ∧ ∃ listing, stage = .fetched listing ∧
      s'.cache.tables.get? region = some (RegionTable.ofListing listing) := by
  rcases hlooked.transition.table_cases with htables | ⟨listing, hfetched, htables⟩
  · rw [htables] at hchanged
    contradiction
  · by_cases hregion : region = name
    · refine ⟨hregion, listing, hfetched, ?_⟩
      rw [htables, hregion, Dict.get?_insert_self]
    · exact absurd (hlooked.transition.table_of_ne hregion) hchanged

theorem Step.writer (hstep : Step s m s')
    (hchanged : s'.cache.tables.get? region ≠ s.cache.tables.get? region) :
    ∃ id interrupt answer listing, m = .go id interrupt answer ∧
      s.stage? region id = some (.fetched listing) ∧
      s'.cache.tables.get? region = some (RegionTable.ofListing listing) := by
  rcases hstep.aside_or_looked with haside | ⟨name, id, _, _, _, hlooked, interrupt, answer, hm⟩
  · rw [haside.cache] at hchanged
    contradiction
  · obtain ⟨rfl, listing, rfl, htable⟩ := hlooked.writer hchanged
    exact ⟨id, interrupt, answer, listing, hm, hlooked.before, htable⟩

/-! ### Tables that stay -/

theorem Looked.tables_of_stored (hlooked : Looked s s' name id stage stage' notes) (h : Orderly s)
    (hstored : s.cache.stored? region = some table) :
    s'.cache.tables.get? region = s.cache.tables.get? region := by
  by_contra hchanged
  obtain ⟨rfl, listing, rfl, _⟩ := hlooked.writer hchanged
  have hfetcher : (s.stage? region id).any Lookup.isFetcher = true := by
    rw [hlooked.before]
    rfl
  rw [h.missing region id hfetcher] at hstored
  contradiction

theorem Orderly.stored_step (h : Orderly s) (hstep : Step s m s')
    (hstored : s.cache.stored? region = some table) : s'.cache.stored? region = some table := by
  rcases hstep.aside_or_looked with haside | ⟨_, _, _, _, _, hlooked, _⟩
  · rw [haside.cache, hstored]
  · rw [stored?_of_tables (hlooked.tables_of_stored h hstored), hstored]

theorem Orderly.stored_run (h : Orderly s) (hstored : s.cache.stored? region = some table)
    (moves : List (Move α)) : (s.run moves).cache.stored? region = some table := by
  have hboth := run_induction
    (P := fun s => Orderly s ∧ s.cache.stored? region = some table)
    (fun _ _ _ hboth hstep => ⟨hboth.1.step hstep, hboth.1.stored_step hstep hboth.2⟩)
    moves ⟨h, hstored⟩
  exact hboth.2

/-! ### Listings behind tables -/

/-- Who has a listing now has just received it. -/
theorem between_of_transition {c c' : RegionCache}
    (t : Transition region id c stage c' (.fetched listing) notes) :
    Occurrence.between region stage (.fetched listing) = [.arrived region listing] := by
  cases t
  rfl

/-- Every table is that of a listing that has arrived, and so will be those to come. -/
structure Sourced (s : Traffic α) : Prop where
  sorted : s.cache.tables.Sorted
  arrived : ∀ region id listing, s.stage? region id = some (.fetched listing) →
    .arrived region listing ∈ s.history
  table : ∀ region table, s.cache.tables.get? region = some table →
    ∃ listing, .arrived region listing ∈ s.history ∧ table = RegionTable.ofListing listing

theorem Sourced.aside (h : Sourced s) (haside : Aside s s') : Sourced s' where
  sorted := by
    rw [haside.cache]
    exact h.sorted
  arrived region id listing hstage := by
    rw [haside.history]
    rcases haside.places region id with hsame | ⟨_, hbegun⟩
    · exact h.arrived region id listing (hsame ▸ hstage)
    · rw [hbegun] at hstage
      cases hstage
  table region table hget := by
    rw [haside.cache] at hget
    rw [haside.history]
    exact h.table region table hget

theorem pending?_eq_some (h : stage.pending? = some stage') : stage = stage' := by
  cases stage <;> cases h <;> rfl

theorem Sourced.look (h : Sourced s) (hlooked : Looked s s' name id stage stage' notes) :
    Sourced s' where
  sorted := by
    rcases hlooked.transition.table_cases with htables | ⟨_, _, htables⟩
    · rw [htables]
      exact h.sorted
    · rw [htables]
      exact Dict.sorted_insert h.sorted
  arrived region i listing hstage := by
    rw [hlooked.history, List.mem_append]
    by_cases hhere : region = name ∧ i = id
    · obtain ⟨rfl, rfl⟩ := hhere
      rw [hlooked.after] at hstage
      obtain rfl := pending?_eq_some hstage
      rw [between_of_transition hlooked.transition]
      exact Or.inr List.mem_cons_self
    · rw [hlooked.others region i hhere] at hstage
      exact Or.inl (h.arrived region i listing hstage)
  table region table hget := by
    rw [hlooked.history]
    by_cases hchanged : s'.cache.tables.get? region ≠ s.cache.tables.get? region
    · obtain ⟨rfl, listing, rfl, htable⟩ := hlooked.writer hchanged
      rw [hget] at htable
      have harrived := h.arrived region id listing hlooked.before
      exact ⟨listing, List.mem_append_left _ harrived, Option.some.inj htable⟩
    · rw [not_not.mp hchanged] at hget
      obtain ⟨listing, harrived, htable⟩ := h.table region table hget
      exact ⟨listing, List.mem_append_left _ harrived, htable⟩

theorem Sourced.step (h : Sourced s) (hstep : Step s m s') : Sourced s' := by
  rcases hstep.aside_or_looked with haside | ⟨_, _, _, _, _, hlooked, _⟩
  · exact h.aside haside
  · exact h.look hlooked

theorem sourced_empty : Sourced ({} : Traffic α) where
  sorted := List.Pairwise.nil
  arrived _ _ _ h := by simp [stage?, progress?] at h
  table _ _ h := by simp [Dict.get?] at h

theorem sourced_after (moves : List (Move α)) : Sourced (after moves) :=
  run_induction (fun _ _ _ h hstep => h.step hstep) moves sourced_empty

/-! ### Answers behind listings -/

theorem of_arrived_mem_between
    (h : .arrived region listing ∈ Occurrence.between name stage stage') :
    region = name ∧ stage = .fetching true ∧ stage' = .fetched listing := by
  unfold Occurrence.between at h
  split at h
  next => simp at h
  next =>
    cases List.mem_singleton.mp h
    exact ⟨rfl, rfl, rfl⟩
  next => simp at h
  next => cases h

theorem Step.arrival (hstep : Step s m s') (h : .arrived region listing ∈ s'.history) :
    .arrived region listing ∈ s.history ∨
      ∃ id, m = .go id none (some (.ok listing)) ∧
        s.stage? region id = some (.fetching true) := by
  cases hstep with
  | idle | enter | note | ask => exact Or.inl h
  | @look id interrupt answer _ _ _ _ _ _ here stepped =>
    rcases List.mem_append.mp h with h | h
    · exact Or.inl h
    · obtain ⟨rfl, rfl, rfl⟩ := of_arrived_mem_between h
      obtain ⟨rfl, rfl⟩ := answer_of_step stepped
      exact Or.inr ⟨id, rfl, stage?_of_looking here⟩

theorem after_concat (moves : List (Move α)) (m : Move α) :
    after (moves ++ [m]) = (after moves).step m := by
  rw [after, run, List.foldl_append]
  rfl

/-- What is seen to have arrived was the answer to a call of the inventory for the region. -/
theorem arrived_after (moves : List (Move α))
    (h : .arrived region listing ∈ (after moves).history) :
    ∃ earlier id later, moves = earlier ++ .go id none (some (.ok listing)) :: later ∧
      (after earlier).stage? region id = some (.fetching true) := by
  induction moves using List.reverseRecOn with
  | nil => cases h
  | append_singleton moves m ih =>
    rw [after_concat] at h
    rcases (step_step (after moves) m).arrival h with h | ⟨id, rfl, hcalled⟩
    · obtain ⟨earlier, id, later, rfl, hcalled⟩ := ih h
      exact ⟨earlier, id, later ++ [m], by simp, hcalled⟩
    · exact ⟨moves, id, [], rfl, hcalled⟩

end ClusterGate.Traffic
