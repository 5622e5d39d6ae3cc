import ClusterGate.Proofs.Engine.Against
import ClusterGate.Proofs.Sku.WriteOnce

/-!
# What queries come to

Judged by the table of a region, a query is answered from the SKU that the table lists. It asks for
this region only.
-/

namespace ClusterGate.Sku

open Engine

variable {table : RegionTable} {region instanceType name : String} {sku : Sku}

/-- The table lists the instance type, and neither name is empty. -/
def Listed (table : RegionTable) (region instanceType : String) (sku : Sku) : Prop :=
  region ≠ "" ∧ instanceType ≠ "" ∧ Dict.get? instanceType table = some sku

theorem Listed.eq {sku' : Sku} (h : Listed table region instanceType sku)
    (h' : Listed table region instanceType sku') : sku = sku' := by
  have hget := h.2.2
  rw [h'.2.2] at hget
  exact (Option.some.inj hget).symm

theorem resolve_against :
    (resolve region instanceType).against table = .ok sku ↔
      Listed table region instanceType sku := by
  unfold Listed
  by_cases hregion : region = ""
  · rw [resolve, if_pos hregion, against_fail]
    refine iff_of_false ?_ fun h => h.1 hregion
    intro h
    cases h
  by_cases htype : instanceType = ""
  · rw [resolve, if_neg hregion, if_pos htype, against_fail]
    refine iff_of_false ?_ fun h => h.2.1 htype
    intro h
    cases h
  rw [resolve_eq hregion htype, against_ask, against_done, verdict]
  cases Dict.get? instanceType table with
  | none => simp
  | some found => simp [hregion, htype]

theorem resolve_restsOn : (resolve region instanceType).RestsOn region := by
  by_cases hregion : region = ""
  · rw [resolve, if_pos hregion]
    exact .done _
  by_cases htype : instanceType = ""
  · rw [resolve, if_neg hregion, if_pos htype]
    exact .done _
  rw [resolve_eq hregion htype]
  exact .ask (fun error => ⟨error, rfl⟩) ⟨_, rfl⟩ fun _ => .done _

theorem memoryOf_against {n : Nat} :
    (memoryOf region instanceType).against table = .ok n ↔
      ∃ sku, Listed table region instanceType sku ∧ sku.number Capability.memory = .ok n := by
  simp only [memoryOf, against_bind, resolve_against, against_ofExcept]

theorem cpusOf_against {n : Nat} :
    (cpusOf region instanceType).against table = .ok n ↔
      ∃ sku, Listed table region instanceType sku ∧ sku.number Capability.cpus = .ok n := by
  simp only [cpusOf, against_bind, resolve_against, against_ofExcept]

theorem zonesOf_against {zones : List String} :
    (zonesOf region instanceType).against table = .ok zones ↔
      ∃ sku, Listed table region instanceType sku ∧ sku.zones = zones := by
  simp only [zonesOf, against_bind, resolve_against, against_pure]

theorem capabilityOf_against {value : Option String} (hname : name ≠ "") :
    (capabilityOf region instanceType name).against table = .ok value ↔
      ∃ sku, Listed table region instanceType sku ∧ sku.capability? name = value := by
  rw [capabilityOf, if_neg hname]
  simp only [against_bind, resolve_against, against_pure]

theorem hasCapability_against {b : Bool} (hname : name ≠ "") :
    (hasCapability region instanceType name).against table = .ok b ↔
      ∃ sku, Listed table region instanceType sku ∧ sku.supports name = b := by
  rw [hasCapability, against_bind]
  constructor
  · rintro ⟨value, hvalue, hb⟩
    obtain ⟨sku, hlisted, rfl⟩ := (capabilityOf_against hname).mp hvalue
    refine ⟨sku, hlisted, ?_⟩
    unfold supports
    cases hcapability : sku.capability? name with
    | some value =>
      rw [hcapability] at hb
      exact against_pure.mp hb
    | none =>
      rw [hcapability] at hb
      exact against_pure.mp hb
  · rintro ⟨sku, hlisted, rfl⟩
    refine ⟨sku.capability? name, (capabilityOf_against hname).mpr ⟨sku, hlisted, rfl⟩, ?_⟩
    unfold supports
    cases sku.capability? name with
    | some value => exact against_pure.mpr rfl
    | none => exact against_pure.mpr rfl

/-! ### The region of a query -/

theorem memoryOf_restsOn : (memoryOf region instanceType).RestsOn region :=
  resolve_restsOn.bind fun _ => .done _

theorem cpusOf_restsOn : (cpusOf region instanceType).RestsOn region :=
  resolve_restsOn.bind fun _ => .done _

theorem zonesOf_restsOn : (zonesOf region instanceType).RestsOn region :=
  resolve_restsOn.bind fun _ => .done _

theorem hasCapability_restsOn : (hasCapability region instanceType name).RestsOn region := by
  have hcapability : (capabilityOf region instanceType name).RestsOn region := by
    unfold capabilityOf
    split
    · exact .done _
    · exact resolve_restsOn.bind fun _ => .done _
  refine hcapability.bind fun value => ?_
  cases value with
  | some value => exact .done _
  | none => exact .done _

end ClusterGate.Sku
