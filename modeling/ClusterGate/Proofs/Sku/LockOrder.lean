import ClusterGate.Proofs.Sku.Traffic

/-!
# Order at the locks

After any moves the queue of a region lists exactly the lookups that wait for its lock or hold it, the
holder at its head, and there is no table as long as someone fetches it. The invariant is `Orderly`;
main statement: `orderly_after`.
-/

namespace ClusterGate.Traffic

open RegionCache

variable {α : Type} {s s' : Traffic α} {m : Move α} {id i j : LookupId} {region name : String}
  {stage stage' : Lookup} {notes : List Note}

/-- The locks and the calls agree. -/
structure Orderly (s : Traffic α) : Prop where
  nodup : ∀ region, (s.cache.queue region).Nodup
  queued : ∀ region id,
    id ∈ s.cache.queue region ↔ (s.stage? region id).any Lookup.isQueued = true
  first : ∀ region id, (s.stage? region id).any Lookup.isHolder = true →
    (s.cache.queue region).head? = some id
  missing : ∀ region id, (s.stage? region id).any Lookup.isFetcher = true →
    s.cache.stored? region = none

/-- The lock has one holder. -/
theorem Orderly.alone (h : Orderly s) (hi : (s.stage? region i).any Lookup.isHolder = true)
    (hj : (s.stage? region j).any Lookup.isHolder = true) : i = j := by
  have hhead := h.first region i hi
  rw [h.first region j hj] at hhead
  exact (Option.some.inj hhead).symm

theorem any_isHolder_of_isFetcher (h : (s.stage? region i).any Lookup.isFetcher = true) :
    (s.stage? region i).any Lookup.isHolder = true := by
  rw [Option.any_eq_true] at h ⊢
  obtain ⟨stage, hstage, hfetcher⟩ := h
  exact ⟨stage, hstage, Lookup.isHolder_of_isFetcher hfetcher⟩

theorem Aside.any {P : Lookup → Bool} (haside : Aside s s') (hP : P .checking = false) :
    (s'.stage? region id).any P = (s.stage? region id).any P := by
  rcases haside.places region id with hsame | ⟨hnone, hbegun⟩
  · rw [hsame]
  · rw [hnone, hbegun]
    exact hP

theorem Orderly.aside (h : Orderly s) (haside : Aside s s') : Orderly s' where
  nodup region := by
    rw [haside.cache]
    exact h.nodup region
  queued region id := by
    rw [haside.cache, haside.any rfl]
    exact h.queued region id
  first region id hid := by
    rw [haside.any rfl] at hid
    rw [haside.cache]
    exact h.first region id hid
  missing region id hid := by
    rw [haside.any rfl] at hid
    rw [haside.cache]
    exact h.missing region id hid

theorem any_pending? {P : Lookup → Bool} (hP : ∀ r, P (.done r) = false) :
    stage.pending?.any P = P stage := by
  cases stage with
  | done r => exact (hP r).symm
  | _ => rfl

theorem Looked.any_before {P : Lookup → Bool} (hlooked : Looked s s' name id stage stage' notes) :
    (s.stage? name id).any P = P stage := by
  rw [hlooked.before]
  rfl

theorem Looked.any_after {P : Lookup → Bool} (hP : ∀ r, P (.done r) = false)
    (hlooked : Looked s s' name id stage stage' notes) : (s'.stage? name id).any P = P stage' := by
  rw [hlooked.after, any_pending? hP]

section Look

variable (h : Orderly s) (hlooked : Looked s s' name id stage stage' notes)
include h hlooked

theorem nodup_of_look : (s'.cache.queue region).Nodup := by
  have hnodup := h.nodup region
  by_cases hregion : region = name
  · subst hregion
    rcases hlooked.transition.queue_cases with ⟨hq, _, _⟩ | ⟨hq, hout, _⟩ | ⟨hq, _, _⟩
    · rw [hq]
      exact hnodup
    · have hnot : id ∉ s.cache.queue region := by
        rw [h.queued, hlooked.any_before, hout]
        exact Bool.false_ne_true
      rw [hq, List.nodup_append]
      refine ⟨hnodup, by simp, ?_⟩
      intro a ha b hb heq
      rw [List.mem_singleton.mp hb] at heq
      exact hnot (heq ▸ ha)
    · rw [hq]
      exact hnodup.erase id
  · rw [hlooked.transition.queue_of_ne hregion]
    exact hnodup

theorem queued_of_look :
    i ∈ s'.cache.queue region ↔ (s'.stage? region i).any Lookup.isQueued = true := by
  have hqueued := h.queued region i
  by_cases hregion : region = name
  · subst hregion
    by_cases hi : i = id
    · subst hi
      rw [hlooked.any_before] at hqueued
      rw [hlooked.any_after fun _ => rfl]
      rcases hlooked.transition.queue_cases with ⟨hq, hsame, _⟩ | ⟨hq, _, hjoined⟩ | ⟨hq, _, hleft⟩
      · rw [hq, hqueued, hsame]
      · rw [hq, hjoined]
        simp [Lookup.isQueued]
      · rw [hq, (h.nodup region).mem_erase_iff, hleft]
        simp
    · rw [hlooked.stage?_of_id_ne hi, ← hqueued]
      rcases hlooked.transition.queue_cases with ⟨hq, _, _⟩ | ⟨hq, _, _⟩ | ⟨hq, _, _⟩
      · rw [hq]
      · rw [hq]
        simp [hi]
      · rw [hq, (h.nodup region).mem_erase_iff]
        simp [hi]
  · rw [hlooked.stage?_of_region_ne hregion, hlooked.transition.queue_of_ne hregion]
    exact hqueued

theorem first_of_look (hi : (s'.stage? region i).any Lookup.isHolder = true) :
    (s'.cache.queue region).head? = some i := by
  by_cases hregion : region = name
  · subst hregion
    by_cases hid : i = id
    · subst hid
      rw [hlooked.any_after fun _ => rfl] at hi
      rcases hlooked.transition.queue_cases with ⟨hq, _, hholder⟩ | ⟨_, _, hjoined⟩ | ⟨_, _, hleft⟩
      · rw [hq]
        rcases hholder hi with hwas | hholds
        · exact h.first region i (hlooked.any_before.trans hwas)
        · exact holds_iff.mp hholds
      · rw [hjoined] at hi
        exact absurd hi Bool.false_ne_true
      · rw [Lookup.isQueued_of_isHolder hi] at hleft
        exact absurd hleft.symm Bool.false_ne_true
    · -- another holder keeps the head: who joins is behind it, and it is not the one that leaves
      rw [hlooked.stage?_of_id_ne hid] at hi
      obtain ⟨rest, hrest⟩ := List.head?_eq_some_iff.mp (h.first region i hi)
      rcases hlooked.transition.queue_cases with ⟨hq, _, _⟩ | ⟨hq, _, _⟩ | ⟨hq, _, _⟩
      · rw [hq, hrest]
        rfl
      · rw [hq, hrest]
        rfl
      · rw [hq, hrest, List.erase_cons_tail (by simpa using hid)]
        rfl
  · rw [hlooked.stage?_of_region_ne hregion] at hi
    rw [hlooked.transition.queue_of_ne hregion]
    exact h.first region i hi

/-- Nobody else fetches while someone stores: both would be at the head of the queue. -/
theorem missing_of_look (hi : (s'.stage? region i).any Lookup.isFetcher = true) :
    s'.cache.stored? region = none := by
  by_cases hregion : region = name
  · subst hregion
    by_cases hid : i = id
    · subst hid
      rw [hlooked.any_after fun _ => rfl] at hi
      obtain ⟨hcache, hwas | hmissing⟩ := hlooked.transition.missing_of_fetcher hi
      · rw [hcache]
        exact h.missing region i (hlooked.any_before.trans hwas)
      · rw [hcache, hmissing]
    · rw [hlooked.stage?_of_id_ne hid] at hi
      rcases hlooked.transition.table_cases with htables | ⟨listing, hfetched, _⟩
      · rw [stored?_of_tables (congrArg (Dict.get? region) htables)]
        exact h.missing region i hi
      · have hholder : (s.stage? region id).any Lookup.isHolder = true := by
          rw [hlooked.any_before, hfetched]
          rfl
        exact absurd (h.alone (any_isHolder_of_isFetcher hi) hholder) hid
  · rw [hlooked.stage?_of_region_ne hregion] at hi
    rw [stored?_of_tables (hlooked.transition.table_of_ne hregion)]
    exact h.missing region i hi

theorem Orderly.look : Orderly s' where
  nodup _ := nodup_of_look h hlooked
  queued _ _ := queued_of_look h hlooked
  first _ _ := first_of_look h hlooked
  missing _ _ := missing_of_look h hlooked

end Look

/-! ### Moves and runs -/

theorem Orderly.step (h : Orderly s) (hstep : Step s m s') : Orderly s' := by
  rcases hstep.aside_or_looked with haside | ⟨_, _, _, _, _, hlooked, _⟩
  · exact h.aside haside
  · exact h.look hlooked

theorem orderly_empty : Orderly ({} : Traffic α) where
  nodup _ := List.nodup_nil
  queued _ _ := by simp [RegionCache.queue, Dict.get?, stage?, progress?]
  first _ _ h := by simp [stage?, progress?] at h
  missing _ _ _ := rfl

theorem orderly_after (moves : List (Move α)) : Orderly (after moves) :=
  run_induction (fun _ _ _ h hstep => h.step hstep) moves orderly_empty

end ClusterGate.Traffic
