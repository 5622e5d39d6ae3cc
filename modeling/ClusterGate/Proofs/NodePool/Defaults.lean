import ClusterGate.NodePool.Defaults
import ClusterGate.Proofs.Engine.Announcement
import ClusterGate.Proofs.Engine.Ends
import ClusterGate.Proofs.NodePool.Rules

/-!
# Defaults agree with the rules

A pool with its defaults written into it needs no more defaults, and the rules on storage and disks
accept what was filled in, on the very cache that the defaults were taken from. A defaulting that fails
reports no patch. Main statement: `defaults_settle`.
-/

namespace ClusterGate

/-! ### Notes about patches -/

def Event.isPatch : Event → Bool
  | .patchesGenerated .. => true
  | _ => false

def Note.isPatch : Note → Bool
  | .count counter _ => counter == .patchOps
  | .emit event => event.isPatch

/-- What a ledger says about patches: the counter and the events. -/
def Ledger.patchRecord (l : Ledger) : UInt64 × List Entry :=
  (l.tally.patchOps, l.entries.filter fun entry => entry.event.isPatch)

theorem Ledger.patchRecord_note {l : Ledger} {n : Note} (h : n.isPatch = false) :
    (l.note n).patchRecord = l.patchRecord := by
  cases n with
  | count counter k =>
    cases counter with
    | patchOps => cases h
    | _ => rfl
  | emit event =>
    rw [Note.isPatch] at h
    simp [patchRecord, note, List.filter_append, h]

theorem Ledger.patchRecord_notes {ns : List Note} (l : Ledger)
    (h : ∀ n ∈ ns, n.isPatch = false) : (l.notes ns).patchRecord = l.patchRecord := by
  induction ns generalizing l with
  | nil => rfl
  | cons n rest ih =>
    obtain ⟨hn, hrest⟩ := List.forall_mem_cons.mp h
    exact (ih (l.note n) hrest).trans (patchRecord_note hn)

theorem RegionCache.Transition.not_isPatch {region : String} {id : LookupId}
    {c c' : RegionCache} {stage stage' : Lookup} {notes : List Note}
    (t : Transition region id c stage c' stage' notes) : ∀ n ∈ notes, n.isPatch = false := by
  cases t <;> simp [Note.isPatch, Event.isPatch]

namespace NodePool

open Engine Patch

variable {table : RegionTable} {c : RegionCache} {p q : NodePool} {location : String}
  {ops : List Operation}

/-! ### Writing a patch into a pool -/

/-- The pool with the value of an operation in the field that its path names. -/
def write? (p : NodePool) : Operation → Option NodePool
  | .add path value =>
    if path = storagePath then value.text?.map fun s => { p with storageAccountType := s }
    else if path = disksPath then
      (Doc.list? DataDisk.read? (Doc.ofValue value)).map fun disks => { p with dataDisks := disks }
    else if path = locationPath then value.text?.map fun s => { p with location := s }
    else none
  | _ => none

/-- The pool with the values of all operations, one after the other. -/
def writeAll? (p : NodePool) (ops : List Operation) : Option NodePool := ops.foldlM write? p

/-- The paths of the fields that a pool leaves empty, in the order in which they are filled. -/
def openPaths (p : NodePool) : List String :=
  (if p.storageAccountType = "" then [storagePath] else []) ++
    (if p.dataDisks = [] then [disksPath] else []) ++
    (if p.location = "" then [locationPath] else [])

/-- The pool with a location of its own or else the given one. -/
def located (p : NodePool) (location : String) : NodePool :=
  if p.location = "" then { p with location := location } else p

/-- The pool with a storage account type, and with its other empty fields filled. -/
def filled (p : NodePool) (location account : String) : NodePool :=
  { p with
    location := (p.located location).location
    storageAccountType := account
    dataDisks := if p.dataDisks = [] then DataDisk.desired else p.dataDisks }

theorem located_keeps : (p.located location).storageAccountType = p.storageAccountType ∧
    (p.located location).dataDisks = p.dataDisks ∧ (p.located location).vmSize = p.vmSize := by
  unfold located
  split
  · exact ⟨rfl, rfl, rfl⟩
  · exact ⟨rfl, rfl, rfl⟩

theorem located_location (h : location ≠ "") : (p.located location).location ≠ "" := by
  unfold located
  split
  next => exact h
  next hset => exact hset

theorem disksPath_ne : disksPath ≠ storagePath := by decide

theorem locationPath_ne : locationPath ≠ storagePath ∧ locationPath ≠ disksPath := by decide

theorem read_desired :
    Doc.list? DataDisk.read? (Doc.ofValue (.arr (DataDisk.desired.map DataDisk.encode))) =
      some DataDisk.desired := by
  decide +kernel

theorem defaultDisks_of_empty (h : p.dataDisks = []) :
    defaultDisks p = some (.add disksPath (.arr (DataDisk.desired.map DataDisk.encode))) := by
  rw [defaultDisks, h]
  rfl

theorem defaultDisks_of_set (h : p.dataDisks ≠ []) : defaultDisks p = none := by
  rw [defaultDisks, if_neg]
  rwa [List.isEmpty_iff]

theorem write_defaultDisks (hsame : q.dataDisks = p.dataDisks) :
    p.writeAll? (defaultDisks q).toList =
      some { p with dataDisks := if p.dataDisks = [] then DataDisk.desired else p.dataDisks } := by
  by_cases hempty : p.dataDisks = []
  · rw [defaultDisks_of_empty (hsame.trans hempty)]
    simp [writeAll?, write?, disksPath_ne, read_desired, hempty]
  · rw [defaultDisks_of_set (hsame ▸ hempty), if_neg hempty]
    rfl

theorem write_defaultLocation (hsame : q.location = p.location) :
    p.writeAll? (defaultLocation q location).toList = some (p.located location) := by
  unfold defaultLocation located
  rw [hsame]
  split
  next => simp [writeAll?, write?, locationPath_ne, Json.text?]
  next => rfl

theorem writeAll?_append {first rest : List Operation} :
    p.writeAll? (first ++ rest) = (p.writeAll? first).bind fun q => q.writeAll? rest :=
  List.foldlM_append

/-- The disks and the location are filled beside whatever is done about the storage. -/
theorem write_defaults {storage : List Operation} {account : String}
    (hstorage : p.writeAll? storage = some { p with storageAccountType := account }) :
    p.writeAll? (storage ++ (defaultDisks (p.located location)).toList ++
      (defaultLocation p location).toList) = some (p.filled location account) := by
  let q : NodePool :=
    { p with
      storageAccountType := account
      dataDisks := if p.dataDisks = [] then DataDisk.desired else p.dataDisks }
  have hdisks := write_defaultDisks (p := { p with storageAccountType := account })
    (q := p.located location) located_keeps.2.1
  have hplace : q.writeAll? (defaultLocation p location).toList = some (q.located location) :=
    write_defaultLocation rfl
  have hfilled : q.located location = p.filled location account := by
    simp only [q, located, filled]
    split <;> rfl
  rw [writeAll?_append, writeAll?_append, hstorage, Option.bind_some, hdisks, Option.bind_some,
    ← hfilled]
  exact hplace

theorem paths_defaults {storage : List Operation}
    (hstorage : storage.map Operation.path =
      if p.storageAccountType = "" then [storagePath] else []) :
    (storage ++ (defaultDisks (p.located location)).toList ++
      (defaultLocation p location).toList).map Operation.path = p.openPaths := by
  have hdisks : (defaultDisks (p.located location)).toList.map Operation.path =
      if p.dataDisks = [] then [disksPath] else [] := by
    by_cases hempty : p.dataDisks = []
    · rw [defaultDisks_of_empty (located_keeps.2.1.trans hempty), if_pos hempty]
      rfl
    · have hset : (p.located location).dataDisks ≠ [] := located_keeps.2.1.symm ▸ hempty
      rw [defaultDisks_of_set hset, if_neg hempty]
      rfl
  have hplace : (defaultLocation p location).toList.map Operation.path =
      if p.location = "" then [locationPath] else [] := by
    unfold defaultLocation
    split <;> rfl
  rw [List.map_append, List.map_append, hstorage, hdisks, hplace, openPaths]

/-! ### What the defaults come to -/

theorem defaultStorage_against {storage : Option Operation} :
    (defaultStorage p).against table = .ok storage ↔
      p.storageAccountType ≠ "" ∧ storage = none ∨
        p.storageAccountType = "" ∧ ∃ sku, Sku.Listed table p.location p.vmSize sku ∧
          storage = some (.add storagePath
            (.str (if sku.supports Capability.premiumIo then premiumStorage else standardStorage))) := by
  have hname : Capability.premiumIo ≠ "" := by decide
  unfold defaultStorage
  split
  next hset =>
    rw [against_pure]
    constructor
    · intro h
      exact Or.inl ⟨hset, h.symm⟩
    · rintro (⟨_, h⟩ | ⟨hempty, _⟩)
      · exact h.symm
      · exact absurd hempty hset
  next hempty =>
    simp only [against_bind, Sku.hasCapability_against hname, against_pure]
    constructor
    · rintro ⟨_, ⟨sku, hlisted, rfl⟩, h⟩
      exact Or.inr ⟨not_not.mp hempty, sku, hlisted, h.symm⟩
    · rintro (⟨hset, _⟩ | ⟨_, sku, hlisted, h⟩)
      · exact absurd hset hempty
      · exact ⟨_, ⟨sku, hlisted, rfl⟩, h.symm⟩

theorem mutateCreate_eq : mutateCreate p location = (do
    let storage ← defaultStorage (p.located location)
    let ops := storage.toList ++ (defaultDisks (p.located location)).toList ++
      (defaultLocation p location).toList
    Engine.notes (diffNotes ops)
    return ops) := rfl

theorem mutateCreate_against :
    (mutateCreate p location).against table = .ok ops ↔
      ∃ storage, (defaultStorage (p.located location)).against table = .ok storage ∧
        storage.toList ++ (defaultDisks (p.located location)).toList ++
          (defaultLocation p location).toList = ops := by
  rw [mutateCreate_eq, against_bind]
  refine exists_congr fun storage => and_congr_right fun _ => ?_
  rw [against_bind]
  constructor
  · rintro ⟨_, _, h⟩
    exact against_pure.mp h
  · intro h
    exact ⟨(), against_notes _, against_pure.mpr h⟩

/-- The storage account type that a pool has or gets is one that the rules accept if it was not the
pool's own choice. -/
theorem account_of_defaultStorage {storage : Option Operation}
    (h : (defaultStorage (p.located location)).against table = .ok storage) :
    ∃ account, account ≠ "" ∧
      storage.toList.map Operation.path = (if p.storageAccountType = "" then [storagePath] else []) ∧
      p.writeAll? storage.toList = some { p with storageAccountType := account } ∧
      (p.storageAccountType = "" →
        (checkStorage (p.filled location account)).against table = .ok ()) := by
  obtain ⟨hstorage, _, hsize⟩ := @located_keeps p location
  rw [defaultStorage_against, hstorage, hsize] at h
  rcases h with ⟨hset, rfl⟩ | ⟨hempty, sku, hlisted, rfl⟩
  · refine ⟨p.storageAccountType, hset, ?_, rfl, fun hempty => absurd hempty hset⟩
    rw [if_neg hset]
    rfl
  · refine ⟨if sku.supports Capability.premiumIo then premiumStorage else standardStorage,
      ?_, ?_, rfl, fun _ => checkStorage_against.mpr ?_⟩
    · split <;> decide
    · rw [if_pos hempty]
      rfl
    · simp only [filled]
      split
      next hsupports => exact Or.inr ⟨rfl, sku, hlisted, hsupports⟩
      next => exact Or.inl rfl

/-- The operations fill the empty fields of a pool, in order, and lead to a pool in which nothing is
left to fill and whose filled fields pass the rules. -/
structure Fills (table : RegionTable) (p : NodePool) (location : String) (ops : List Operation)
    (p' : NodePool) : Prop where
  paths : ops.map Operation.path = p.openPaths
  written : p.writeAll? ops = some p'
  place : p'.location = (p.located location).location
  full : p'.storageAccountType ≠ "" ∧ p'.dataDisks ≠ [] ∧ p'.location ≠ ""
  storage : p.storageAccountType = "" → (checkStorage p').against table = .ok ()
  disks : p.dataDisks = [] → p'.dataDisks = DataDisk.desired

theorem fills_of_mutateCreate (hlocation : location ≠ "")
    (h : (mutateCreate p location).against table = .ok ops) :
    ∃ p', Fills table p location ops p' := by
  obtain ⟨storage, hstorage, rfl⟩ := mutateCreate_against.mp h
  obtain ⟨account, haccount, hpath, hwritten, hcheck⟩ := account_of_defaultStorage hstorage
  have hdisks : (p.filled location account).dataDisks ≠ [] := by
    simp only [filled]
    split
    next => exact List.cons_ne_nil _ _
    next hset => exact hset
  exact ⟨p.filled location account, paths_defaults hpath, write_defaults hwritten, rfl,
    ⟨haccount, hdisks, located_location hlocation⟩, hcheck, fun hempty => if_pos hempty⟩

/-! ### Programs about a filled pool -/

theorem mutateCreate_restsOn : (mutateCreate p location).RestsOn (p.located location).location := by
  have hstorage : (defaultStorage (p.located location)).RestsOn (p.located location).location := by
    unfold defaultStorage
    split
    · exact .done _
    · exact Sku.hasCapability_restsOn.bind fun _ => .done _
  exact hstorage.bind fun _ => (notes_restsOn _).bind fun _ => .done _

theorem mutateCreate_withholds : (mutateCreate p location).Withholds Note.isPatch := by
  have hstorage : (defaultStorage (p.located location)).Silent := by
    unfold defaultStorage
    split
    · exact .done _
    · exact Sku.hasCapability_silent.bind fun _ => .done _
  -- whatever can fail comes before the notes
  exact hstorage.withholds_bind fun _ => (notes_certain _).withholds

theorem mutateCreate_full (h : p.storageAccountType ≠ "" ∧ p.dataDisks ≠ [] ∧ p.location ≠ "") :
    (mutateCreate p location).Ends c (.ok []) 2 := by
  obtain ⟨hstorage, hdisks, hlocation⟩ := h
  have hstay : p.located location = p := if_neg hlocation
  have hnone : defaultLocation p location = none := if_neg hlocation
  have hunfold : mutateCreate p location = Engine.notes (diffNotes []) >>= fun _ => pure [] := by
    rw [mutateCreate_eq, hstay, defaultDisks_of_set hdisks, hnone, defaultStorage, if_pos hstorage]
    rfl
  rw [hunfold]
  exact (notes_ends (diffNotes [])).bind (f := fun _ => pure []) pure_ends

theorem stored_of_listed {region type : String} {sku : Sku}
    (h : Sku.Listed ((c.stored? region).getD []) region type sku) :
    ∃ table, c.stored? region = some table ∧ Sku.Listed table region type sku := by
  cases hstored : c.stored? region with
  | none =>
    rw [hstored] at h
    exact nomatch h.2.2
  | some table =>
    rw [hstored] at h
    exact ⟨table, rfl, h⟩

theorem checkStorage_ends
    (h : (checkStorage p).against ((c.stored? p.location).getD []) = .ok ()) :
    ∃ k ≤ 2, (checkStorage p).Ends c (.ok ()) k := by
  have hname : Capability.premiumIo ≠ "" := by decide
  have hother : standardStorage ≠ premiumStorage := by decide
  rcases checkStorage_against.mp h with hstandard | ⟨hpremium, sku, hlisted, hsupports⟩
  · refine ⟨0, Nat.zero_le 2, ?_⟩
    simp only [checkStorage, hstandard, if_neg hother, beq_self_eq_true, Bool.true_or]
    exact require_ends.bind pure_ends
  · obtain ⟨table, hstored, hlisted⟩ := stored_of_listed hlisted
    have hsupported := Sku.hasCapability_ends hname hstored hlisted
    rw [hsupports] at hsupported
    refine ⟨2, Nat.le_refl 2, ?_⟩
    simp only [checkStorage, hpremium, if_pos, beq_self_eq_true, Bool.or_true]
    refine require_ends.bind (k := 0) (l := 2) ?_
    exact hsupported.bind (l := 0) require_ends

theorem checkDisks_ends (h : p.dataDisks = DataDisk.desired) : (checkDisks p).Ends c (.ok ()) 0 := by
  rw [checkDisks, h, beq_self_eq_true]
  exact require_ends

end NodePool

namespace Traffic

open NodePool Patch

variable {α : Type} {moves : List (Move α)} {p p' : NodePool} {ops : List Operation}

/-- The result of a call that begins after some moves, later on. -/
def resultOf? (moves : List (Move α)) (program : Engine α) (later : List (Move α)) :
    Option (Except GateError α) :=
  (after (moves ++ .enter program :: later)).result? (after moves).calls.length

/-- A later move is one of the call that begins after some moves. -/
def ownMoves (moves later : List (Move α)) : Nat :=
  later.countP (Move.isOf (after moves).calls.length)

theorem resultOf?_of_ends {program : Engine α} {result : Except GateError α} {k : Nat}
    (h : program.Ends (after moves).cache result k) {later : List (Move α)}
    (henough : k ≤ ownMoves moves later) : resultOf? moves program later = some result := by
  rw [resultOf?, after_append]
  exact result?_of_ends (orderly_after moves) h later henough

/-- What may be relied on once the defaults of a pool were computed on a cache: a patch for each empty
field and for no other one, and for the pool with the patch written into it, results that do not
depend on what happens later. -/
structure Defaulted (moves : List (Move α)) (p : NodePool) (ops : List Operation) (p' : NodePool) :
    Prop where
  paths : ops.map Operation.path = p.openPaths
  written : p.writeAll? ops = some p'
  again : ∀ (location : String) (f : List Operation → α) (later : List (Move α)),
    2 ≤ ownMoves moves later →
    resultOf? moves (mutateCreate p' location >>= fun ops => pure (f ops)) later =
      some (.ok (f []))
  storage : p.storageAccountType = "" → ∀ (a : α) (later : List (Move α)),
    2 ≤ ownMoves moves later →
    resultOf? moves (checkStorage p' >>= fun _ => pure a) later = some (.ok a)
  disks : p.dataDisks = [] → ∀ (a : α) (later : List (Move α)),
    resultOf? moves (checkDisks p' >>= fun _ => pure a) later = some (.ok a)

theorem defaulted_of_fills {location : String}
    (h : Fills (((after moves).cache.stored? (p.located location).location).getD []) p location ops
      p') : Defaulted moves p ops p' := by
  refine ⟨h.paths, h.written, ?again, ?storage, ?disks⟩
  case again =>
    intro location f later henough
    have hmutate : (mutateCreate p' location).Ends (after moves).cache (.ok []) 2 :=
      mutateCreate_full h.full
    exact resultOf?_of_ends (hmutate.bind Engine.pure_ends) henough
  case storage =>
    intro hempty a later henough
    have hcheck := h.storage hempty
    rw [← h.place] at hcheck
    obtain ⟨k, hk, hends⟩ := checkStorage_ends hcheck
    exact resultOf?_of_ends (hends.bind Engine.pure_ends) (Nat.le_trans hk henough)
  case disks =>
    intro hempty a later
    have hcheck : (checkDisks p').Ends (after moves).cache (.ok ()) 0 :=
      checkDisks_ends (h.disks hempty)
    exact resultOf?_of_ends (hcheck.bind Engine.pure_ends) (Nat.zero_le _)

/-- If the defaults of a new pool were computed on a cache, whatever calls share it and whatever the
inventory answers, then they fill the empty fields of the pool and nothing else. The pool with these
values gets no more defaults from this cache, and the rules on storage and disks accept what was filled
in. If they could not be computed, no move of the call has counted or reported a patch. -/
theorem defaults_settle (moves : List (Move α)) (id : LookupId) (p : NodePool) (location : String)
    (f : List Operation → α) (hlocation : location ≠ "")
    (hcall : (after moves).program? id =
      some (mutateCreate p location >>= fun ops => pure (f ops))) :
    (∀ a, (after moves).result? id = some (.ok a) →
      ∃ ops p', a = f ops ∧ Defaulted moves p ops p') ∧
    ∀ error, (after moves).result? id = some (.error error) →
      ∀ earlier interrupt answer later, moves = earlier ++ .go id interrupt answer :: later →
        (after (earlier ++ [.go id interrupt answer])).ledger.patchRecord =
          (after earlier).ledger.patchRecord := by
  constructor
  · intro a hresult
    have hfollows := follows_of_result (answered_after moves) hcall hresult
    have hagainst := Engine.against_of_follows
      (mutateCreate_restsOn.bind fun _ => .done _) hfollows
    obtain ⟨ops, hops, ha⟩ := Engine.against_bind.mp hagainst
    obtain ⟨p', hfills⟩ := fills_of_mutateCreate hlocation hops
    exact ⟨ops, p', (Engine.against_pure.mp ha).symm, defaulted_of_fills hfills⟩
  · intro error hresult earlier interrupt answer later hmoves
    subst hmoves
    have hwithholds : (mutateCreate p location >>= fun ops => pure (f ops)).Withholds Note.isPatch :=
      mutateCreate_withholds.bind_pure
    obtain ⟨notes, hledger, hnotes⟩ := withheld_of_error hwithholds
      (fun t => t.not_isPatch) hcall hresult
    rw [hledger]
    exact Ledger.patchRecord_notes _ hnotes

/-- An empty pool gets premium storage, the desired disks and the location; where the inventory is down,
it gets nothing, and nothing is reported. -/
theorem defaults_settle_d4 :
    let listing : List Sku := [⟨"D4", [], [⟨"PremiumIO", "TRUE"⟩]⟩]
    let p : NodePool := { vmSize := "D4" }
    let go (answer : Except StorageError (List Sku)) : Move (List Operation) :=
      .go 0 none (some answer)
    let moves answer := .enter (mutateCreate p "westeurope" >>= fun ops => pure ops) ::
      List.replicate 10 (go answer)
    (∃ ops p', (after (moves (.ok listing))).result? 0 = some (.ok ops) ∧
      Defaulted (moves (.ok listing)) p ops p' ∧
      ops.map Operation.path = [storagePath, disksPath, locationPath]) ∧
    ∃ error, (after (moves (.error (.unavailable "down")))).result? 0 = some (.error error) ∧
      ∀ earlier interrupt answer later,
        moves (.error (.unavailable "down")) = earlier ++ .go 0 interrupt answer :: later →
        (after (earlier ++ [.go 0 interrupt answer])).ledger.patchRecord =
          (after earlier).ledger.patchRecord := by
  intro listing p go moves
  have hcall : ∀ answer, (after (moves answer)).program? 0 =
      some (mutateCreate p "westeurope" >>= fun ops => pure ops) := by
    intro answer
    simp only [moves]
    rw [← List.singleton_append, after_append]
    exact program?_run rfl _
  have hok : ((after (moves (.ok listing))).result? 0).any (fun r => r.isOk) = true := by
    decide +kernel
  have hdown : ((after (moves (.error (.unavailable "down")))).result? 0).any
      (fun r => !r.isOk) = true := by
    decide +kernel
  clear_value moves
  have hsettle := fun answer => defaults_settle (moves answer) 0 p "westeurope" (fun ops => ops)
    (by decide) (hcall answer)
  constructor
  · obtain ⟨result, hresult, hok⟩ := (Option.any_eq_true _ _).mp hok
    match result, hok with
    | .ok ops, _ =>
      obtain ⟨_, p', rfl, hdefaulted⟩ := (hsettle (.ok listing)).1 ops hresult
      exact ⟨ops, p', hresult, hdefaulted, hdefaulted.paths⟩
  · obtain ⟨result, hresult, hdown⟩ := (Option.any_eq_true _ _).mp hdown
    match result, hdown with
    | .error error, _ => exact ⟨error, hresult, (hsettle _).2 error hresult⟩

end Traffic

end ClusterGate
