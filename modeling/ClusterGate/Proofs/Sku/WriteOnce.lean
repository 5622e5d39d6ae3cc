import ClusterGate.Proofs.Sku.Answers

/-!
# A region's table is written once

What any number of callers see of the region cache, whatever the inventory answers and whoever is
interrupted: a table is that of one listing, it stays, and all answers are taken from it.
Main statement: `writeOnce_run`.
-/

namespace ClusterGate

/-! ### Resolving -/

namespace Sku

/-- What resolving an instance type makes of the table of its region. -/
def verdict (region instanceType : String) : Except GateError RegionTable → Except GateError Sku
  | .error e => .error e
  | .ok table => match Dict.get? instanceType table with
    | some sku => .ok sku
    | none => .error (.skuNotFound region instanceType)

variable {region instanceType : String} {sku : Sku}

theorem resolve_eq (hregion : region ≠ "") (htype : instanceType ≠ "") :
    resolve region instanceType =
      .ask (.region region) fun result => .done (verdict region instanceType result) := by
  rw [resolve, if_neg hregion, if_neg htype]
  simp only [Bind.bind, Engine.query, Engine.bind]
  congr 1
  funext result
  cases result with
  | error e => rfl
  | ok table =>
    rw [Engine.bind, verdict]
    cases Dict.get? instanceType table <;> rfl

theorem ok_of_verdict {result : Except GateError RegionTable}
    (h : verdict region instanceType result = .ok sku) :
    ∃ table, result = .ok table ∧ Dict.get? instanceType table = some sku := by
  cases result with
  | error e => cases h
  | ok table =>
    rw [verdict] at h
    split at h
    next found =>
      cases h
      exact ⟨table, rfl, found⟩
    next => cases h

theorem keys_of_resolve {told : String → Except GateError RegionTable → Prop}
    (h : (resolve region instanceType).Follows told (.done (.ok sku))) :
    region ≠ "" ∧ instanceType ≠ "" := by
  unfold resolve at h
  split at h
  next => exact nomatch h.eq_of_done
  next hregion =>
    split at h
    next => exact nomatch h.eq_of_done
    next htype => exact ⟨hregion, htype⟩

/-- A SKU that was resolved is in the table that the region keeps. -/
theorem stored_of_resolve {c : RegionCache}
    (h : (resolve region instanceType).Follows c.Vouches (.done (.ok sku))) :
    ∃ table, c.stored? region = some table ∧ Dict.get? instanceType table = some sku := by
  obtain ⟨hregion, htype⟩ := keys_of_resolve h
  rw [resolve_eq hregion htype] at h
  cases h with
  | answer admitted rest =>
    obtain ⟨table, hresult, hget⟩ := ok_of_verdict (Engine.done.inj rest.eq_of_done).symm
    refine ⟨table, admitted table hresult ?_, hget⟩
    rintro rfl
    cases hget

end Sku

/-- Whether a move is one of the call with a number. -/
def Move.isOf {α : Type} (id : LookupId) : Move α → Bool
  | .enter _ => false
  | .go i _ _ => i == id

namespace Traffic

variable {α : Type} {s s' : Traffic α} {m : Move α} {id : LookupId}

theorem progress?_of_step {p : Progress α} (hstep : Step s m s') (hother : m.isOf id = false)
    (here : s.progress? id = some p) : s'.progress? id = some p := by
  have hresume : ∀ {i : LookupId} {interrupt : Option Interrupt}
      {answer : Option (Except StorageError (List Sku))} {q : Progress α} {s' : Traffic α},
      (Move.go i interrupt answer : Move α).isOf id = false →
      s'.calls = (s.resume i q).calls → s'.progress? id = some p := by
    intro i interrupt answer q s' hother hcalls
    have hne : id ≠ i := by
      rintro rfl
      simp [Move.isOf] at hother
    rw [progress?, hcalls, ← progress?, progress?_resume, if_neg hne, here]
  cases hstep with
  | idle => exact here
  | enter program =>
    rw [progress?_enter, if_neg, here]
    rintro rfl
    rw [progress?_of_length_le (Nat.le_refl _)] at here
    contradiction
  | note => exact hresume hother rfl
  | ask => exact hresume hother rfl
  | look => exact hresume hother rfl

theorem progress?_run_of_done {result : Except GateError α}
    (here : s.progress? id = some (.running (.done result))) (moves : List (Move α)) :
    (s.run moves).progress? id = some (.running (.done result)) := by
  refine run_induction (P := fun s => s.progress? id = some (.running (.done result)))
    (fun s m s' here hstep => ?_) moves here
  cases hother : m.isOf id with
  | false => exact progress?_of_step hstep hother here
  | true =>
    cases hstep with
    | idle => exact here
    | enter program => cases hother
    | note there | ask there | look there =>
      rw [beq_iff_eq.mp hother, here] at there
      cases there

theorem result?_run {result : Except GateError α} (h : s.result? id = some result)
    (moves : List (Move α)) : (s.run moves).result? id = some result := by
  obtain ⟨p, here, hresult⟩ := Option.bind_eq_some_iff.mp h
  match p, hresult with
  | .running (.done _), rfl =>
    rw [result?, progress?_run_of_done here moves]
    rfl

section Resolve

variable {s : Traffic Sku} {region instanceType : String} {table : RegionTable}

/-- How far a resolution has got after some moves of its own, when the table is there. -/
def resolving (region instanceType : String) (table : RegionTable) : Nat → Progress Sku
  | 0 => .running
    (.ask (.region region) fun result => .done (Sku.verdict region instanceType result))
  | 1 => .looking region .checking fun result => .done (Sku.verdict region instanceType result)
  | _ => .running (.done (Sku.verdict region instanceType (.ok table)))

theorem resolving_step {n : Nat} (hstored : s.cache.stored? region = some table)
    (here : s.progress? id = some (resolving region instanceType table n))
    (interrupt : Option Interrupt) (answer : Option (Except StorageError (List Sku))) :
    (s.step (.go id interrupt answer)).progress? id =
      some (resolving region instanceType table (n + 1)) := by
  match n with
  | 0 =>
    simp only [step, here, resolving]
    rw [progress?_resume, if_pos rfl, here]
    rfl
  | 1 =>
    simp only [step, here, resolving, RegionCache.step, hstored]
    rw [progress?_resume, if_pos rfl]
    exact congrArg _ here
  | n + 2 =>
    simp only [step, here, resolving]

theorem resolving_run {n : Nat} (h : Orderly s) (hstored : s.cache.stored? region = some table)
    (here : s.progress? id = some (resolving region instanceType table n))
    (moves : List (Move Sku)) :
    (s.run moves).progress? id =
      some (resolving region instanceType table (n + moves.countP (Move.isOf id))) := by
  induction moves generalizing s n with
  | nil => exact here
  | cons m rest ih =>
    have hnext := h.step (step_step s m)
    have hkept := h.stored_step (step_step s m) hstored
    rw [List.countP_cons]
    cases hown : m.isOf id with
    | false => exact ih hnext hkept (progress?_of_step (step_step s m) hown here)
    | true =>
      match m with
      | .go i interrupt answer =>
        obtain rfl : i = id := beq_iff_eq.mp hown
        have hgone := ih hnext hkept (resolving_step hstored here interrupt answer)
        rw [if_pos rfl, ← Nat.add_assoc, Nat.add_right_comm]
        exact hgone

/-- A resolution that begins when the table is there ends with its second move, whatever happens
meanwhile. -/
theorem result?_resolve (h : Orderly s) (hstored : s.cache.stored? region = some table)
    (hregion : region ≠ "") (htype : instanceType ≠ "") (moves : List (Move Sku)) :
    ((s.step (.enter (Sku.resolve region instanceType))).run moves).result? s.calls.length =
      if 2 ≤ moves.countP (Move.isOf s.calls.length)
      then some (Sku.verdict region instanceType (.ok table)) else none := by
  have hentered : (s.step (.enter (Sku.resolve region instanceType))).progress? s.calls.length =
      some (resolving region instanceType table 0) := by
    rw [step, progress?_enter, if_pos rfl, Sku.resolve_eq hregion htype]
    rfl
  have hnext := h.step (step_step s (.enter (Sku.resolve region instanceType)))
  rw [result?, resolving_run hnext hstored hentered, Nat.zero_add]
  rcases moves.countP (Move.isOf s.calls.length) with _ | _ | n
  · rfl
  · rfl
  · rfl

end Resolve

/-! ### All answers agree -/

/-- Who resolves an instance type successfully gets the SKU of the table that the region keeps. -/
theorem stored_of_result {s : Traffic Sku} {region instanceType : String} {sku : Sku}
    (h : Answered s) (hprogram : s.program? id = some (Sku.resolve region instanceType))
    (hresult : s.result? id = some (.ok sku)) :
    ∃ table, s.cache.stored? region = some table ∧ Dict.get? instanceType table = some sku := by
  exact Sku.stored_of_resolve (follows_of_result h hprogram hresult)

/-- What resolutions on one cache rely on, after some moves. -/
structure WriteOnce (moves : List (Move Sku)) : Prop where
  /-- A table is that of one answer to a call of the inventory for its region. -/
  single : ∀ region table, (after moves).cache.tables.get? region = some table →
    ∃ listing, table = RegionTable.ofListing listing ∧
      (∀ name, Dict.get? name table = listing.reverse.find? fun sku => sku.name == name) ∧
      ∃ earlier id later, moves = earlier ++ .go id none (some (.ok listing)) :: later ∧
        (after earlier).stage? region id = some (.fetching true)
  /-- A table that is not empty stays. -/
  kept : ∀ region table later, (after moves).cache.tables.get? region = some table → table ≠ [] →
    (after (moves ++ later)).cache.tables.get? region = some table
  /-- The table of a region changes only when a lookup of this region writes it. -/
  apart : ∀ m region,
    (after (moves ++ [m])).cache.tables.get? region ≠ (after moves).cache.tables.get? region →
    ∃ id interrupt answer listing, m = .go id interrupt answer ∧
      (after moves).stage? region id = some (.fetched listing)
  /-- A result stays. -/
  final : ∀ id result later, (after moves).result? id = some result →
    (after (moves ++ later)).result? id = some result
  /-- Two successful resolutions of one instance type give one SKU, that of the table. -/
  agree : ∀ region instanceType i j x y,
    (after moves).program? i = some (Sku.resolve region instanceType) →
    (after moves).program? j = some (Sku.resolve region instanceType) →
    (after moves).result? i = some (.ok x) → (after moves).result? j = some (.ok y) →
    x = y ∧ ∃ table, (after moves).cache.tables.get? region = some table ∧
      Dict.get? instanceType table = some x
  /-- Who begins when there is a table is answered from it, in two moves of its own. -/
  answered : ∀ region instanceType table later, region ≠ "" → instanceType ≠ "" →
    (after moves).cache.tables.get? region = some table → table ≠ [] →
    (after (moves ++ .enter (Sku.resolve region instanceType) :: later)).result?
        (after moves).calls.length =
      if 2 ≤ later.countP (Move.isOf (after moves).calls.length)
      then some (match Dict.get? instanceType table with
        | some sku => .ok sku
        | none => .error (.skuNotFound region instanceType))
      else none
  /-- The regions listed are those with a table that is not empty, in order. -/
  regions : (after moves).cache.regions.Pairwise (· < ·) ∧
    ∀ region, region ∈ (after moves).cache.regions ↔
      ∃ table, (after moves).cache.tables.get? region = some table ∧ table ≠ []

theorem after_append (moves later : List (Move α)) :
    after (moves ++ later) = (after moves).run later := List.foldl_append

/-- Whatever the moves are, tables are written once and all answers come from them. -/
theorem writeOnce_after (moves : List (Move Sku)) : WriteOnce moves := by
  have horderly := orderly_after moves
  have hsourced := sourced_after moves
  have hanswered := answered_after moves
  refine ⟨?single, ?kept, ?apart, ?final, ?agree, ?answered, ?regions⟩
  case single =>
    intro region table hget
    obtain ⟨listing, harrived, rfl⟩ := hsourced.table region table hget
    exact ⟨listing, rfl, fun _ => RegionTable.get?_ofListing, arrived_after moves harrived⟩
  case kept =>
    intro region table later hget hne
    rw [after_append]
    have hstored := horderly.stored_run (RegionCache.stored?_eq_some.mpr ⟨hget, hne⟩) later
    exact (RegionCache.stored?_eq_some.mp hstored).1
  case apart =>
    intro m region hchanged
    rw [after_concat] at hchanged
    obtain ⟨id, interrupt, answer, listing, hm, hfetched, _⟩ :=
      (step_step (after moves) m).writer hchanged
    exact ⟨id, interrupt, answer, listing, hm, hfetched⟩
  case final =>
    intro id result later hresult
    rw [after_append]
    exact result?_run hresult later
  case agree =>
    intro region instanceType i j x y hi hj hx hy
    obtain ⟨table, hstored, hget⟩ := stored_of_result hanswered hi hx
    obtain ⟨table', hstored', hget'⟩ := stored_of_result hanswered hj hy
    obtain rfl : table = table' := Option.some.inj (hstored.symm.trans hstored')
    exact ⟨Option.some.inj (hget.symm.trans hget'), table,
      (RegionCache.stored?_eq_some.mp hstored).1, hget⟩
  case answered =>
    intro region instanceType table later hregion htype hget hne
    have hstored := RegionCache.stored?_eq_some.mpr ⟨hget, hne⟩
    rw [after_append]
    exact result?_resolve horderly hstored hregion htype later
  case regions =>
    exact ⟨RegionCache.regions_ascending hsourced.sorted,
      fun _ => RegionCache.mem_regions hsourced.sorted⟩

/-- Two callers miss the table: one calls the inventory, the other one waits and finds the table. -/
example :
    let go (id : LookupId) : Move Sku := .go id none none
    let resolve := Sku.resolve "westeurope" "D4"
    let first := [.enter resolve, .enter resolve, go 0, go 1, go 0, go 1, go 0, go 1, go 0, go 0, go 0]
    let later := [.go 0 none (some (.ok [{ name := "D4" }])), go 1, go 0, go 1, go 1]
    (after (first ++ later)).history =
      [.called "westeurope", .arrived "westeurope" [{ name := "D4" }],
        .stored "westeurope" [("D4", { name := "D4" })]] := by
  decide +kernel

end Traffic

end ClusterGate
