import ClusterGate.NodePool.Rules
import ClusterGate.Proofs.Sku.Queries

/-!
# What the rules on node pools accept

Judged by the table of a region, each rule is a condition on the pool and on the SKU that the table
lists for it. All questions of the rules are about the region of the pool.
-/

namespace ClusterGate.NodePool

open Engine

variable {table : RegionTable} {p old new : NodePool}

/-! ### Single rules -/

theorem checkInstanceType_against :
    (checkInstanceType p).against table = .ok () ↔
      ∃ sku memory cpus, Sku.Listed table p.location p.vmSize sku ∧
        sku.number Capability.memory = .ok memory ∧ sku.number Capability.cpus = .ok cpus ∧
        minMemoryGb ≤ memory ∧ minCpus ≤ cpus := by
  simp only [checkInstanceType, against_bind, Sku.memoryOf_against, Sku.cpusOf_against,
    against_require, decide_eq_true_eq]
  constructor
  · rintro ⟨memory, ⟨sku, hlisted, hmemory⟩, cpus, ⟨sku', hlisted', hcpus⟩, _, hmin, hmin'⟩
    obtain rfl := hlisted.eq hlisted'
    exact ⟨sku, memory, cpus, hlisted, hmemory, hcpus, hmin, hmin'⟩
  · rintro ⟨sku, memory, cpus, hlisted, hmemory, hcpus, hmin, hmin'⟩
    exact ⟨memory, ⟨sku, hlisted, hmemory⟩, cpus, ⟨sku, hlisted, hcpus⟩, (), hmin, hmin'⟩

theorem checkStorage_against :
    (checkStorage p).against table = .ok () ↔
      p.storageAccountType = standardStorage ∨
        p.storageAccountType = premiumStorage ∧
          ∃ sku, Sku.Listed table p.location p.vmSize sku ∧
            sku.supports Capability.premiumIo = true := by
  unfold checkStorage
  simp only [against_bind, against_require, Bool.or_eq_true, beq_iff_eq]
  split
  next hpremium =>
    have hname : Capability.premiumIo ≠ "" := by decide
    have hother : p.storageAccountType ≠ standardStorage := by
      rw [hpremium]
      decide
    simp only [against_bind, Sku.hasCapability_against hname, against_require]
    constructor
    · rintro ⟨_, _, _, ⟨sku, hlisted, hsupports⟩, rfl⟩
      exact Or.inr ⟨hpremium, sku, hlisted, hsupports⟩
    · rintro (hstandard | ⟨_, sku, hlisted, hsupports⟩)
      · exact absurd hstandard hother
      · exact ⟨(), Or.inr hpremium, true, ⟨sku, hlisted, hsupports⟩, rfl⟩
  next hother =>
    constructor
    · rintro ⟨_, hknown, _⟩
      exact Or.inl (hknown.resolve_right hother)
    · rintro (hstandard | ⟨hpremium, _⟩)
      · exact ⟨(), Or.inl hstandard, rfl⟩
      · exact absurd hpremium hother

theorem checkNetworking_against :
    (checkNetworking p).against table = .ok () ↔
      (p.acceleratedNetworking = some true → ∃ sku, Sku.Listed table p.location p.vmSize sku ∧
        sku.supports Capability.acceleratedNetworking = true) := by
  unfold checkNetworking
  split
  next hon =>
    have hname : Capability.acceleratedNetworking ≠ "" := by decide
    simp only [against_bind, Sku.hasCapability_against hname, against_require]
    constructor
    · rintro ⟨_, ⟨sku, hlisted, hsupports⟩, rfl⟩ _
      exact ⟨sku, hlisted, hsupports⟩
    · intro h
      obtain ⟨sku, hlisted, hsupports⟩ := h hon
      exact ⟨true, ⟨sku, hlisted, hsupports⟩, rfl⟩
  next hoff => exact iff_of_true rfl fun hon => absurd hon hoff

theorem checkFailureDomain_against :
    (checkFailureDomain p).against table = .ok () ↔
      ∀ domain, p.effectiveFailureDomain = some domain →
        ∃ sku, Sku.Listed table p.location p.vmSize sku ∧ domain ∈ sku.zones := by
  unfold checkFailureDomain
  split
  next hnone => exact iff_of_true rfl fun domain hdomain => by simp [hnone] at hdomain
  next domain hsome =>
    simp only [against_bind, Sku.zonesOf_against, against_require]
    constructor
    · rintro ⟨_, ⟨sku, hlisted, rfl⟩, hzone⟩ other hother
      obtain rfl := Option.some.inj (hsome.symm.trans hother)
      exact ⟨sku, hlisted, List.contains_iff_mem.mp hzone⟩
    · intro h
      obtain ⟨sku, hlisted, hzone⟩ := h domain hsome
      exact ⟨sku.zones, ⟨sku, hlisted, rfl⟩, List.contains_iff_mem.mpr hzone⟩

/-! ### All rules -/

structure Fits (table : RegionTable) (p : NodePool) : Prop where
  instanceType : (checkInstanceType p).against table = .ok ()
  storage : (checkStorage p).against table = .ok ()
  networking : (checkNetworking p).against table = .ok ()

/-- The pools agree in what an update leaves alone. -/
structure Unaltered (old new : NodePool) : Prop where
  networking : old.acceleratedNetworking = new.acceleratedNetworking
  failureDomain : old.effectiveFailureDomain = new.effectiveFailureDomain
  storage : old.storageAccountType = new.storageAccountType

theorem validateCreate_against :
    (validateCreate p).against table = .ok () ↔
      Fits table p ∧ (checkDisks p).against table = .ok () ∧
        (checkFailureDomain p).against table = .ok () := by
  simp only [validateCreate, against_bind]
  constructor
  · rintro ⟨_, hinstance, _, hstorage, _, hnetworking, _, hdisks, hdomain⟩
    exact ⟨⟨hinstance, hstorage, hnetworking⟩, hdisks, hdomain⟩
  · rintro ⟨hfits, hdisks, hdomain⟩
    exact ⟨(), hfits.instanceType, (), hfits.storage, (), hfits.networking, (), hdisks, hdomain⟩

theorem checkSizeUpdate_against :
    (checkSizeUpdate old new).against table = .ok () ↔
      old.vmSize = new.vmSize ∨ Fits table new := by
  unfold checkSizeUpdate
  split
  next hsize => exact iff_of_true rfl (Or.inl hsize)
  next hsize =>
    simp only [against_bind]
    constructor
    · rintro ⟨_, hinstance, _, hstorage, hnetworking⟩
      exact Or.inr ⟨hinstance, hstorage, hnetworking⟩
    · intro h
      have hfits := h.resolve_left hsize
      exact ⟨(), hfits.instanceType, (), hfits.storage, hfits.networking⟩

theorem validateUpdate_against :
    (validateUpdate old new).against table = .ok () ↔
      Unaltered old new ∧ (old.vmSize = new.vmSize ∨ Fits table new) := by
  simp only [validateUpdate, checkNetworkingUnchanged, checkFailureDomainUnchanged,
    checkStorageUnchanged, against_bind, against_require, checkSizeUpdate_against, beq_iff_eq]
  constructor
  · rintro ⟨_, hnetworking, _, hdomain, _, hstorage, hsize⟩
    exact ⟨⟨hnetworking, hdomain, hstorage⟩, hsize⟩
  · rintro ⟨h, hsize⟩
    exact ⟨(), h.networking, (), h.failureDomain, (), h.storage, hsize⟩

/-! ### The region of the rules -/

theorem checkInstanceType_restsOn : (checkInstanceType p).RestsOn p.location := by
  refine Sku.memoryOf_restsOn.bind fun _ => Sku.cpusOf_restsOn.bind fun _ => ?_
  exact require_restsOn.bind fun _ => require_restsOn

theorem checkStorage_restsOn : (checkStorage p).RestsOn p.location := by
  refine require_restsOn.bind fun _ => ?_
  split
  · exact Sku.hasCapability_restsOn.bind fun _ => require_restsOn
  · exact .done _

theorem checkNetworking_restsOn : (checkNetworking p).RestsOn p.location := by
  unfold checkNetworking
  split
  · exact Sku.hasCapability_restsOn.bind fun _ => require_restsOn
  · exact .done _

theorem checkFailureDomain_restsOn : (checkFailureDomain p).RestsOn p.location := by
  unfold checkFailureDomain
  split
  · exact .done _
  · exact Sku.zonesOf_restsOn.bind fun _ => require_restsOn

theorem validateCreate_restsOn : (validateCreate p).RestsOn p.location := by
  refine checkInstanceType_restsOn.bind fun _ => checkStorage_restsOn.bind fun _ => ?_
  refine checkNetworking_restsOn.bind fun _ => require_restsOn.bind fun _ => ?_
  exact checkFailureDomain_restsOn

theorem validateUpdate_restsOn : (validateUpdate old new).RestsOn new.location := by
  refine require_restsOn.bind fun _ => require_restsOn.bind fun _ => ?_
  refine require_restsOn.bind fun _ => ?_
  unfold checkSizeUpdate
  split
  · exact .done _
  · refine checkInstanceType_restsOn.bind fun _ => checkStorage_restsOn.bind fun _ => ?_
    exact checkNetworking_restsOn

end ClusterGate.NodePool
