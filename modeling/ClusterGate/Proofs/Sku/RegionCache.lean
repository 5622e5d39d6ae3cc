import ClusterGate.Proofs.Dict
import ClusterGate.Sku.RegionCache

/-!
# What a step of a lookup does

Under each name the table of a listing has the SKU of this name that the listing has last. A step of a lookup is one of twelve transitions (`transition_of_step`). All of them leave the tables
and queues of other regions alone. A lookup enters the queue at its end, leaves it from any place, and
writes a table only when it holds a listing.
-/

namespace ClusterGate

namespace RegionTable

variable {listing : List Sku} {name : String}

theorem get?_ofListing :
    Dict.get? name (ofListing listing) = listing.reverse.find? fun sku => sku.name == name := by
  rw [ofListing, Dict.get?_ofList, ← List.map_reverse, List.find?_map, Option.map_map]
  exact Option.map_id'

theorem ofListing_eq_nil : ofListing listing = [] ↔ listing = [] := by
  constructor
  · intro h
    rcases List.eq_nil_or_concat listing with hnil | ⟨front, last, hlast⟩
    · exact hnil
    · rw [ofListing, Dict.ofList, hlast, List.concat_eq_append, List.map_append,
        List.foldl_append] at h
      exact absurd h Dict.insert_ne_nil
  · intro h
    rw [h]
    rfl

end RegionTable

namespace Lookup

/-- In the queue of the lock, at its head or behind it. -/
def isQueued : Lookup → Bool
  | .queued | .locked | .fetching _ | .fetched _ => true
  | _ => false

/-- Past the lock, and not yet out of it. -/
def isHolder : Lookup → Bool
  | .locked | .fetching _ | .fetched _ => true
  | _ => false

/-- Past the second look, which found no table. -/
def isFetcher : Lookup → Bool
  | .fetching _ | .fetched _ => true
  | _ => false

theorem isHolder_of_isFetcher {stage : Lookup} (h : stage.isFetcher = true) :
    stage.isHolder = true := by
  cases stage <;> trivial

theorem isQueued_of_isHolder {stage : Lookup} (h : stage.isHolder = true) :
    stage.isQueued = true := by
  cases stage <;> trivial

end Lookup

namespace RegionCache

variable {c c' : RegionCache} {region other : String} {id : LookupId} {table : RegionTable}
  {stage stage' : Lookup} {notes : List Note}

/-! ### Queues and tables after a change -/

theorem queue_join_of_ne (h : other ≠ region) : (c.join region id).queue other = c.queue other := by
  simp only [join, queue, Dict.get?_insert_of_ne _ _ h]

theorem queue_leave : (c.leave region id).queue region = (c.queue region).erase id := by
  simp [leave, queue]

theorem queue_leave_of_ne (h : other ≠ region) :
    (c.leave region id).queue other = c.queue other := by
  simp only [leave, queue, Dict.get?_insert_of_ne _ _ h]

theorem stored?_eq_some :
    c.stored? region = some table ↔ c.tables.get? region = some table ∧ table ≠ [] := by
  rw [stored?, Option.filter_eq_some_iff]
  simp

theorem stored?_of_tables (h : c'.tables.get? region = c.tables.get? region) :
    c'.stored? region = c.stored? region := by
  rw [stored?, stored?, h]

theorem holds_iff : c.holds region id = true ↔ (c.queue region).head? = some id := by
  simp [holds]

/-! ### Transitions -/

/-- A result is no table, an empty one, or the one that the region keeps. -/
def Vouches (c : RegionCache) (region : String) (result : Except GateError RegionTable) : Prop :=
  ∀ table, result = .ok table → table ≠ [] → c.stored? region = some table

/-- What a lookup of a region can do to the cache and to itself, and the notes it leaves. -/
inductive Transition (region : String) (id : LookupId) :
    RegionCache → Lookup → RegionCache → Lookup → List Note → Prop where
  | hit {c : RegionCache} {table : RegionTable} (found : c.stored? region = some table) :
      Transition region id c .checking c (.done (.ok table)) [.count .cacheHits 1]
  | miss {c : RegionCache} (missing : c.stored? region = none) :
      Transition region id c .checking c .missed [.count .cacheMisses 1]
  | turnedAway {c : RegionCache} (i : Interrupt) :
      Transition region id c .missed c (.done (.error (.ofInterrupt waitOperation i))) []
  | join {c : RegionCache} : Transition region id c .missed (c.join region id) .queued []
  | giveUp {c : RegionCache} (i : Interrupt) :
      Transition region id c .queued (c.leave region id)
        (.done (.error (.ofInterrupt waitOperation i))) []
  | acquire {c : RegionCache} (first : c.holds region id = true) :
      Transition region id c .queued c .locked []
  | lateHit {c : RegionCache} {table : RegionTable} (found : c.stored? region = some table) :
      Transition region id c .locked (c.leave region id) (.done (.ok table)) []
  | begin {c : RegionCache} (missing : c.stored? region = none) :
      Transition region id c .locked c (.fetching false) [.count .regionFetches 1]
  | call {c : RegionCache} : Transition region id c (.fetching false) c (.fetching true) []
  | fail {c : RegionCache} {called : Bool} (e : GateError) :
      Transition region id c (.fetching called) (c.leave region id) (.done (.error e))
        [.emit (.fetchFailed region e.message)]
  | arrive {c : RegionCache} (listing : List Sku) :
      Transition region id c (.fetching true) c (.fetched listing) []
  | store {c : RegionCache} {listing : List Sku} :
      Transition region id c (.fetched listing)
        ((c.store region (RegionTable.ofListing listing)).leave region id)
        (.done (.ok (RegionTable.ofListing listing)))
        [.emit (.regionPopulated region (RegionTable.ofListing listing).length)]

theorem transition_of_step {interrupt : Option Interrupt}
    {answer : Option (Except StorageError (List Sku))}
    (h : c.step region id interrupt answer stage = some (c', stage', notes)) :
    Transition region id c stage c' stage' notes := by
  cases stage with
  | checking =>
    cases found : c.stored? region with
    | some table =>
      simp only [step, found] at h
      cases h
      exact .hit found
    | none =>
      simp only [step, found] at h
      cases h
      exact .miss found
  | missed =>
    cases interrupt with
    | some i =>
      cases h
      exact .turnedAway i
    | none =>
      cases h
      exact .join
  | queued =>
    cases interrupt with
    | some i =>
      cases h
      exact .giveUp i
    | none =>
      cases first : c.holds region id with
      | true =>
        simp only [step, first] at h
        cases h
        exact .acquire first
      | false =>
        simp only [step, first] at h
        cases h
  | locked =>
    cases found : c.stored? region with
    | some table =>
      simp only [step, found] at h
      cases h
      exact .lateHit found
    | none =>
      simp only [step, found] at h
      cases h
      exact .begin found
  | fetching called =>
    cases interrupt with
    | some i =>
      cases h
      exact .fail _
    | none =>
      cases called with
      | false =>
        cases h
        exact .call
      | true =>
        match answer, h with
        | none, h => cases h
        | some (.error e), h =>
          cases h
          exact .fail _
        | some (.ok listing), h =>
          cases h
          exact .arrive listing
  | fetched listing =>
    cases h
    exact .store
  | done r => cases h

/-- Who has a listing now has just received it as the answer. -/
theorem answer_of_step {interrupt : Option Interrupt}
    {answer : Option (Except StorageError (List Sku))} {listing : List Sku}
    (h : c.step region id interrupt answer (.fetching true) = some (c', .fetched listing, notes)) :
    interrupt = none ∧ answer = some (.ok listing) := by
  match interrupt, answer, h with
  | none, some (.ok _), rfl => exact ⟨rfl, rfl⟩

namespace Transition

variable (t : Transition region id c stage c' stage' notes)
include t

theorem queue_of_ne (h : other ≠ region) : c'.queue other = c.queue other := by
  cases t with
  | join => exact queue_join_of_ne h
  | giveUp | lateHit | fail | store => exact queue_leave_of_ne h
  | _ => rfl

/-- The lookup stays where it is in the queue, or enters it at its end, or leaves it. -/
theorem queue_cases :
    (c'.queue region = c.queue region ∧ stage'.isQueued = stage.isQueued ∧
      (stage'.isHolder = true → stage.isHolder = true ∨ c.holds region id = true)) ∨
    (c'.queue region = c.queue region ++ [id] ∧ stage.isQueued = false ∧ stage' = .queued) ∨
    (c'.queue region = (c.queue region).erase id ∧ stage.isQueued = true ∧
      stage'.isQueued = false) := by
  cases t with
  | join => exact Or.inr (Or.inl ⟨queue_join _ _ _, rfl, rfl⟩)
  | giveUp | lateHit | fail | store => exact Or.inr (Or.inr ⟨queue_leave, rfl, rfl⟩)
  | acquire first => exact Or.inl ⟨rfl, rfl, fun _ => Or.inr first⟩
  | begin | call | arrive => exact Or.inl ⟨rfl, rfl, fun _ => Or.inl rfl⟩
  | hit | miss | turnedAway => exact Or.inl ⟨rfl, rfl, fun h => nomatch h⟩

/-- Only a lookup with a listing writes, and it writes the table of this listing. -/
theorem table_cases :
    c'.tables = c.tables ∨ ∃ listing, stage = .fetched listing ∧
      c'.tables = c.tables.insert region (RegionTable.ofListing listing) := by
  cases t with
  | store => exact Or.inr ⟨_, rfl, rfl⟩
  | _ => exact Or.inl rfl

theorem table_of_ne (h : other ≠ region) : c'.tables.get? other = c.tables.get? other := by
  rcases t.table_cases with htables | ⟨listing, _, htables⟩
  · rw [htables]
  · rw [htables, Dict.get?_insert_of_ne _ _ h]

/-- Who goes on to fetch has found no table at the second look. -/
theorem missing_of_fetcher (h : stage'.isFetcher = true) :
    c' = c ∧ (stage.isFetcher = true ∨ c.stored? region = none) := by
  cases t with
  | begin missing => exact ⟨rfl, Or.inr missing⟩
  | call | arrive => exact ⟨rfl, Or.inl rfl⟩
  | _ => contradiction

end Transition

theorem Transition.vouches {result : Except GateError RegionTable}
    (t : Transition region id c stage c' (.done result) notes) : c'.Vouches region result := by
  intro table hresult hne
  cases t with
  | hit found | lateHit found =>
    cases hresult
    exact found
  | turnedAway | giveUp | fail => cases hresult
  | store =>
    cases hresult
    exact stored?_eq_some.mpr ⟨Dict.get?_insert_self _ _ _, hne⟩

/-! ### Regions with a table -/

theorem regions_ascending (h : c.tables.Sorted) : c.regions.Pairwise (· < ·) :=
  Dict.sorted_iff_keys.mp (List.Pairwise.filter _ h)

theorem mem_regions (h : c.tables.Sorted) :
    region ∈ c.regions ↔ ∃ table, c.tables.get? region = some table ∧ table ≠ [] := by
  rw [regions, Dict.keys, List.mem_map]
  constructor
  · rintro ⟨⟨key, table⟩, hmem, rfl⟩
    obtain ⟨hmem, hne⟩ := List.mem_filter.mp hmem
    exact ⟨table, (Dict.get?_eq_some_iff h).mpr hmem, by simpa using hne⟩
  · rintro ⟨table, hget, hne⟩
    have hmem := (Dict.get?_eq_some_iff h).mp hget
    exact ⟨(region, table), List.mem_filter.mpr ⟨hmem, by simpa using hne⟩, rfl⟩

end RegionCache

end ClusterGate
