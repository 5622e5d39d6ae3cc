import ClusterGate.Proofs.NodePool.Lifecycle

/-!
# Failure domains after an update

An update checks that the failure domain stays, and not that a new VM size is offered there. So an
accepted pool passes the rule on failure domains afterwards exactly if its size stayed or the new size
is offered in the domain: `checkFailureDomain_updated`.
-/

namespace ClusterGate.NodePool

variable {table : RegionTable} {p old new : NodePool}

theorem listed_of_fits (h : Fits table p) : ∃ sku, Sku.Listed table p.location p.vmSize sku := by
  obtain ⟨sku, _, _, hlisted, _⟩ := checkInstanceType_against.mp h.instanceType
  exact ⟨sku, hlisted⟩

/-- After an accepted update of an accepted pool, the rule on failure domains accepts the pool exactly if
the VM size is the old one or is offered in the failure domain of the pool, if there is one. -/
theorem checkFailureDomain_updated (table : RegionTable) (old new : NodePool)
    (hplace : new.location = old.location)
    (hcreate : (validateCreate old).against table = .ok ())
    (hupdate : (validateUpdate old new).against table = .ok ()) :
    (checkFailureDomain new).against table = .ok () ↔
      old.vmSize = new.vmSize ∨
        ∀ domain, old.effectiveFailureDomain = some domain →
          ∃ sku, Dict.get? new.vmSize table = some sku ∧ domain ∈ sku.zones := by
  obtain ⟨hfits, _, hold⟩ := validateCreate_against.mp hcreate
  obtain ⟨hkept, hfits'⟩ := fits_of_update hupdate hplace hfits
  have hdomain := hkept.failureDomain
  rw [checkFailureDomain_against] at hold ⊢
  constructor
  · intro h
    right
    intro domain hset
    rw [hdomain] at hset
    obtain ⟨sku, hlisted, hzone⟩ := h domain hset
    exact ⟨sku, hlisted.2.2, hzone⟩
  · rintro (hsize | hoffered) domain hset
    · rw [← hdomain] at hset
      rw [hplace, ← hsize]
      exact hold domain hset
    · rw [← hdomain] at hset
      obtain ⟨sku, hget, hzone⟩ := hoffered domain hset
      obtain ⟨_, hregion, htype, _⟩ := listed_of_fits hfits'
      exact ⟨sku, ⟨hregion, htype, hget⟩, hzone⟩

/-- A pool in zone 1 moves to a size that is offered in both zones. -/
theorem checkFailureDomain_updated_d8 :
    let offer : List Capability := [⟨"MemoryGB", "16"⟩, ⟨"vCPUs", "4"⟩]
    let table := RegionTable.ofListing [⟨"D4", ["1"], offer⟩, ⟨"D8", ["1", "2"], offer⟩]
    let old : NodePool :=
      ⟨"westeurope", "D4", standardStorage, none, some "1", DataDisk.desired⟩
    let new := { old with vmSize := "D8" }
    (validateCreate old).against table = .ok () ∧ (validateUpdate old new).against table = .ok () ∧
      (checkFailureDomain new).against table = .ok () := by
  intro offer table old new
  have hcreate : (validateCreate old).against table = .ok () := by decide +kernel
  have hupdate : (validateUpdate old new).against table = .ok () := by decide +kernel
  refine ⟨hcreate, hupdate, (checkFailureDomain_updated table old new rfl hcreate hupdate).mpr ?_⟩
  right
  intro domain hdomain
  cases hdomain
  exact ⟨⟨"D8", ["1", "2"], offer⟩, by decide +kernel, by decide⟩

/-- A pool in zone 1 may be updated to a size that is offered in zone 2 alone. -/
theorem update_out_of_zone :
    let offer : List Capability := [⟨"MemoryGB", "16"⟩, ⟨"vCPUs", "4"⟩]
    let table := RegionTable.ofListing [⟨"D4", ["1"], offer⟩, ⟨"D8", ["2"], offer⟩]
    let old : NodePool :=
      ⟨"westeurope", "D4", standardStorage, none, some "1", DataDisk.desired⟩
    let new := { old with vmSize := "D8" }
    (validateCreate old).against table = .ok () ∧ (validateUpdate old new).against table = .ok () ∧
      (checkFailureDomain new).against table ≠ .ok () := by
  decide +kernel

end ClusterGate.NodePool
