import ClusterGate.Proofs.NodePool.Rules
import Mathlib.Data.List.Chain

/-!
# The life of a node pool

A pool that was accepted at its creation and at each of its updates keeps what updates leave alone,
and its VM size fits it by the table of its region, however many calls share the cache and whatever
the inventory answers meanwhile. Main statement: `fits_throughout`.
-/

namespace ClusterGate

namespace NodePool

variable {table : RegionTable} {old new first : NodePool} {rest : List NodePool}

/-! ### One update -/

theorem Unaltered.refl (p : NodePool) : Unaltered p p := ⟨rfl, rfl, rfl⟩

theorem Unaltered.trans {p q r : NodePool} (h : Unaltered p q) (h' : Unaltered q r) :
    Unaltered p r where
  networking := h.networking.trans h'.networking
  failureDomain := h.failureDomain.trans h'.failureDomain
  storage := h.storage.trans h'.storage

/-- The rules on sizes look at what an update leaves alone, at the place and at the size. -/
theorem Fits.of_unaltered (h : Fits table old) (hkept : Unaltered old new)
    (hplace : new.location = old.location) (hsize : old.vmSize = new.vmSize) : Fits table new where
  instanceType := by
    have hinstance := h.instanceType
    rw [checkInstanceType_against] at hinstance ⊢
    rwa [hplace, ← hsize]
  storage := by
    have hstorage := h.storage
    rw [checkStorage_against] at hstorage ⊢
    rwa [hplace, ← hsize, ← hkept.storage]
  networking := by
    have hnetworking := h.networking
    rw [checkNetworking_against] at hnetworking ⊢
    rwa [hplace, ← hsize, ← hkept.networking]

theorem fits_of_update (hupdate : (validateUpdate old new).against table = .ok ())
    (hplace : new.location = old.location) (h : Fits table old) :
    Unaltered old new ∧ Fits table new := by
  obtain ⟨hkept, hsize⟩ := validateUpdate_against.mp hupdate
  refine ⟨hkept, ?_⟩
  rcases hsize with hsize | hfits
  · exact h.of_unaltered hkept hplace hsize
  · exact hfits

/-! ### All updates -/

theorem fits_of_updates (h : Fits table first)
    (hupdates : (first :: rest).IsChain fun old new =>
      (validateUpdate old new).against table = .ok ())
    (hplace : ∀ p ∈ rest, p.location = first.location) :
    ∀ p ∈ first :: rest, Unaltered first p ∧ Fits table p := by
  induction rest generalizing first with
  | nil =>
    intro p hp
    rw [List.mem_singleton.mp hp]
    exact ⟨Unaltered.refl first, h⟩
  | cons next rest ih =>
    obtain ⟨hupdate, hupdates⟩ := List.isChain_cons_cons.mp hupdates
    obtain ⟨hnext, hplace⟩ := List.forall_mem_cons.mp hplace
    obtain ⟨hkept, hfits⟩ := fits_of_update hupdate hnext h
    have hrest := ih hfits hupdates fun p hp => (hplace p hp).trans hnext.symm
    intro p hp
    rcases List.mem_cons.mp hp with rfl | hp
    · exact ⟨Unaltered.refl p, h⟩
    · obtain ⟨hkept', hfits'⟩ := hrest p hp
      exact ⟨hkept.trans hkept', hfits'⟩

end NodePool

namespace Traffic

open NodePool

variable {α : Type} {s : Traffic α} {first : NodePool} {rest : List NodePool}

/-- Some call runs a check, after which it gives a result of its own, and has come to give it. -/
def Accepted (s : Traffic α) (check : Engine Unit) : Prop :=
  ∃ id a, s.program? id = some (check >>= fun _ => pure a) ∧ s.result? id = some (.ok a)

/-- What a call was told to be in order is so by the table of the region. -/
theorem Accepted.against {check : Engine Unit} {region : String} (h : s.Accepted check)
    (hanswered : Answered s) (hrests : check.RestsOn region) :
    check.against ((s.cache.stored? region).getD []) = .ok () := by
  obtain ⟨id, a, hprogram, hresult⟩ := h
  have hfollows := follows_of_result hanswered hprogram hresult
  have hboth := Engine.against_of_follows (hrests.bind fun _ => .done _) hfollows
  obtain ⟨u, hcheck, _⟩ := Engine.against_bind.mp hboth
  exact hcheck

theorem not_validateCreate_empty {p : NodePool} : (validateCreate p).against [] ≠ .ok () := by
  intro h
  obtain ⟨hfits, _⟩ := validateCreate_against.mp h
  obtain ⟨sku, _, _, hlisted, _⟩ := checkInstanceType_against.mp hfits.instanceType
  exact nomatch hlisted.2.2

/-- A pool that was accepted at its creation and at every update, without moving, keeps accelerated
networking, failure domain and storage, and the rules on sizes accept it by the table that its region
keeps: whatever calls of whatever kind share the cache, are interrupted, or find the inventory
changed. -/
theorem fits_throughout (moves : List (Move α)) (first : NodePool) (rest : List NodePool)
    (hcreate : (after moves).Accepted (validateCreate first))
    (hupdates : (first :: rest).IsChain fun old new =>
      (after moves).Accepted (validateUpdate old new))
    (hplace : ∀ p ∈ rest, p.location = first.location) :
    ∃ table, (after moves).cache.tables.get? first.location = some table ∧ table ≠ [] ∧
      ∀ p ∈ first :: rest,
        p.acceleratedNetworking = first.acceleratedNetworking ∧
        p.effectiveFailureDomain = first.effectiveFailureDomain ∧
        p.storageAccountType = first.storageAccountType ∧
        (checkInstanceType p).against table = .ok () ∧
        (checkStorage p).against table = .ok () ∧
        (checkNetworking p).against table = .ok () := by
  have hanswered := answered_after moves
  have hcreated := hcreate.against hanswered validateCreate_restsOn
  cases hstored : (after moves).cache.stored? first.location with
  | none =>
    rw [hstored] at hcreated
    exact absurd hcreated not_validateCreate_empty
  | some table =>
    rw [hstored] at hcreated
    obtain ⟨hget, hne⟩ := RegionCache.stored?_eq_some.mp hstored
    have hupdated : (first :: rest).IsChain fun old new =>
        (validateUpdate old new).against table = .ok () := by
      refine hupdates.imp_of_mem_tail_imp fun old new _ hnew haccepted => ?_
      have hupdate := haccepted.against hanswered validateUpdate_restsOn
      rwa [hplace new hnew, hstored] at hupdate
    have hfits := fits_of_updates (validateCreate_against.mp hcreated).1 hupdated hplace
    refine ⟨table, hget, hne, fun p hp => ?_⟩
    obtain ⟨hkept, hp⟩ := hfits p hp
    exact ⟨hkept.networking.symm, hkept.failureDomain.symm, hkept.storage.symm, hp.instanceType,
      hp.storage, hp.networking⟩

/-- The inventory fails one call, lists two sizes to the next one, and would fail again; the pool is
created with one size and moved to the other one. -/
theorem fits_throughout_d8 :
    let offer : List Capability := [⟨"MemoryGB", "32"⟩, ⟨"vCPUs", "8"⟩, ⟨"PremiumIO", "True"⟩]
    let listing : List Sku := ["D4", "D8"].map fun name => ⟨name, [], offer⟩
    let first : NodePool :=
      ⟨"westeurope", "D4", premiumStorage, none, some "", DataDisk.desired⟩
    let next := { first with vmSize := "D8" }
    let calls := [.enter (Sku.resolve "westeurope" "D2" >>= fun _ => pure ()),
      .enter (validateCreate first >>= fun _ => pure ()),
      .enter (validateUpdate first next >>= fun _ => pure ())]
    let go (id : LookupId) : Move Unit := .go id none (some (.error (.unavailable "down")))
    let moves := calls ++ (List.replicate 7 (go 0) ++ List.replicate 6 (go 1) ++
      .go 1 none (some (.ok listing)) :: List.replicate 9 (go 1) ++ List.replicate 9 (go 2))
    (after moves).Accepted (validateCreate first) ∧
      (after moves).Accepted (validateUpdate first next) ∧
      next.storageAccountType = first.storageAccountType ∧
      ∃ table, (after moves).cache.tables.get? "westeurope" = some table ∧
        (checkStorage next).against table = .ok () := by
  intro offer listing first next calls go moves
  have hprogram : ∀ {id program}, (after calls).program? id = some program →
      (after moves).program? id = some program := by
    intro id program h
    rw [after_append]
    exact program?_run h _
  have hcreated : (after moves).result? 1 = some (.ok ()) := by decide +kernel
  have hupdated : (after moves).result? 2 = some (.ok ()) := by decide +kernel
  have hcreate : (after moves).Accepted (validateCreate first) := ⟨1, (), hprogram rfl, hcreated⟩
  have hupdate : (after moves).Accepted (validateUpdate first next) :=
    ⟨2, (), hprogram rfl, hupdated⟩
  clear_value moves
  have hchain : [first, next].IsChain fun old new =>
      (after moves).Accepted (validateUpdate old new) :=
    List.isChain_cons_cons.mpr ⟨hupdate, List.IsChain.singleton next⟩
  have hplace : ∀ p ∈ [next], p.location = first.location := by simp [next]
  obtain ⟨table, hget, _, hfits⟩ := fits_throughout moves first [next] hcreate hchain hplace
  obtain ⟨_, _, hstorage, _, hcheck, _⟩ := hfits next (by simp)
  exact ⟨hcreate, hupdate, hstorage, table, hget, hcheck⟩

end Traffic

end ClusterGate
