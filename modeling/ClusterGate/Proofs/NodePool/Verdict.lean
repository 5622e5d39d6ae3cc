import ClusterGate.Proofs.Engine.Told
import ClusterGate.Proofs.NodePool.Rules
import ClusterGate.Proofs.Sku.Inquiry

/-!
# The verdict on a new node pool

A new pool has to meet ten demands. Judged by the table of its region, it is accepted if it meets all
of them, and otherwise refused with the complaint of the first one that it does not meet.
Main statement: `validateCreate_verdict`.
-/

namespace ClusterGate.NodePool

open Engine

variable {table : RegionTable} {p : NodePool} {sku : Sku} {d : Demand} {ds others : List Demand}

/-! ### Demands -/

/-- What a new pool has to meet. -/
inductive Demand where
  /-- Its VM size is listed. -/
  | listed
  /-- The memory of the VM size is a number. -/
  | memoryNumber
  /-- The cores of the VM size are a number. -/
  | cpusNumber
  | enoughMemory
  | enoughCpus
  /-- Its storage account type is a known one. -/
  | knownStorage
  | premiumSupport
  | networkingSupport
  | disks
  | domain
deriving DecidableEq, Repr

/-- The number that a SKU has under the name of a capability. -/
def quantity? (sku : Sku) (name : String) : Option Nat := (sku.capability? name).bind Text.word?

/-- The SKU of a pool, without any capabilities if the table does not list it. -/
def offered (table : RegionTable) (p : NodePool) : Sku :=
  (Dict.get? p.vmSize table).getD { name := p.vmSize }

namespace Demand

/-- All demands, the ones that come first in front. -/
def all : List Demand :=
  [listed, memoryNumber, cpusNumber, enoughMemory, enoughCpus, knownStorage, premiumSupport,
    networkingSupport, disks, domain]

def isMet (table : RegionTable) (p : NodePool) : Demand → Bool
  | listed => (Dict.get? p.vmSize table).isSome
  | memoryNumber => (quantity? (offered table p) "MemoryGB").isSome
  | cpusNumber => (quantity? (offered table p) "vCPUs").isSome
  | enoughMemory => (quantity? (offered table p) "MemoryGB").any fun memory => 16 ≤ memory
  | enoughCpus => (quantity? (offered table p) "vCPUs").any fun cpus => 4 ≤ cpus
  | knownStorage => p.storageAccountType == "Standard_LRS" || p.storageAccountType == "Premium_LRS"
  | premiumSupport => p.storageAccountType != "Premium_LRS" || (offered table p).supports "PremiumIO"
  | networkingSupport => p.acceleratedNetworking != some true ||
      (offered table p).supports "AcceleratedNetworkingEnabled"
  | disks => p.dataDisks == DataDisk.desired
  | domain => p.effectiveFailureDomain.all fun domain => (offered table p).zones.contains domain

def complaint (table : RegionTable) (p : NodePool) : Demand → GateError
  | listed => .skuNotFound p.location p.vmSize
  | memoryNumber => unreadable "MemoryGB"
  | cpusNumber => unreadable "vCPUs"
  | enoughMemory => .policyViolation ("memory has to be at least 16 GB, " ++ p.vmSize ++ " offers " ++
      toString ((quantity? (offered table p) "MemoryGB").getD 0))
  | enoughCpus => .policyViolation ("number of cores has to be at least 4, " ++ p.vmSize ++
      " offers " ++ toString ((quantity? (offered table p) "vCPUs").getD 0))
  | knownStorage => .policyViolation ("storage account type " ++ Text.quoted p.storageAccountType ++
      " is invalid, allowed values are " ++ Text.quoted "Standard_LRS" ++ " and " ++
      Text.quoted "Premium_LRS")
  | premiumSupport => .policyViolation ("VM size " ++ p.vmSize ++ " does not support premium storage")
  | networkingSupport => .policyViolation ("VM size " ++ p.vmSize ++
      " does not support accelerated networking")
  | disks => .policyViolation "data disks do not have the required value"
  | domain => .policyViolation ("failure domain " ++ p.effectiveFailureDomain.getD "" ++
      " is not supported by VM size " ++ p.vmSize ++ " in " ++ p.location ++
      ", supported zones are " ++ Text.quotedList (offered table p).zones)
where
  unreadable (name : String) : GateError :=
    .invalidResponse (offered table p).name name ((offered table p).capability? name)

end Demand

/-- The complaint of the first demand that is not met, if there is one. -/
def judged (table : RegionTable) (p : NodePool) (ds : List Demand) : Except GateError Unit :=
  match ds.find? fun d => !d.isMet table p with
  | none => .ok ()
  | some d => .error (d.complaint table p)

def verdict (table : RegionTable) (p : NodePool) : Except GateError Unit := judged table p Demand.all

theorem judged_cons : judged table p (d :: ds) =
    if d.isMet table p then judged table p ds else .error (d.complaint table p) := by
  unfold judged
  cases hmet : d.isMet table p with
  | true => rw [List.find?_cons_of_neg (by simp [hmet]), if_pos rfl]
  | false =>
    rw [List.find?_cons_of_pos (by simp [hmet])]
    rfl

theorem judged_append : judged table p (ds ++ others) = match judged table p ds with
    | .ok _ => judged table p others
    | .error error => .error error := by
  induction ds with
  | nil => rfl
  | cons d ds ih =>
    rw [List.cons_append, judged_cons, judged_cons, ih]
    split
    · rfl
    · rfl

theorem judged_nil : judged table p [] = .ok () := rfl

theorem judged_ok : judged table p ds = .ok () ↔ ∀ d ∈ ds, d.isMet table p = true := by
  induction ds with
  | nil => exact iff_of_true rfl fun _ h => nomatch h
  | cons d ds ih =>
    rw [judged_cons, List.forall_mem_cons, ← ih]
    cases d.isMet table p with
    | true => simp
    | false => simp

/-- Rules one after the other look at their demands one after the other. -/
theorem judged_bind {e : Engine Unit} {f : Unit → Engine Unit} (h : e.against table = judged table p ds)
    (hf : (f ()).against table = judged table p others) :
    (e >>= f).against table = judged table p (ds ++ others) := by
  rw [against_bind_eq, judged_append, h]
  cases judged table p ds with
  | ok => exact hf
  | error => rfl

/-! ### Each rule is a group of demands -/

theorem number_eq (sku : Sku) (name : String) : sku.number name =
    match quantity? sku name with
    | some n => .ok n
    | none => .error (.invalidResponse sku.name name (sku.capability? name)) := rfl

theorem require_against (condition : Bool) (detail : String) :
    (require condition detail).against table =
      if condition then .ok () else .error (.policyViolation detail) := by
  cases condition <;> rfl

theorem offered_of_listed (hget : Dict.get? p.vmSize table = some sku) : offered table p = sku := by
  rw [offered, hget, Option.getD_some]

theorem not_refused {q : Sku.Inquiry} (hlocation : p.location ≠ "") (hsize : p.vmSize ≠ "")
    (hname : q.name? ≠ some "") : q.refusal? p.location p.vmSize = none := by
  simp [Sku.Inquiry.refusal?, hname, hlocation, hsize]

theorem query_reply {q : Sku.Inquiry} (hlocation : p.location ≠ "") (hsize : p.vmSize ≠ "")
    (hname : q.name? ≠ some "") : (q.program p.location p.vmSize).against table =
      q.reply p.location p.vmSize (.ok table) := by
  rw [Sku.Inquiry.program_eq (not_refused hlocation hsize hname), against_ask, against_done]

section Listed

variable (hlocation : p.location ≠ "") (hsize : p.vmSize ≠ "")
  (hget : Dict.get? p.vmSize table = some sku)
include hlocation hsize hget

theorem query_against {q : Sku.Inquiry} (hname : q.name? ≠ some "") :
    (q.program p.location p.vmSize).against table = q.ofSku sku := by
  rw [query_reply hlocation hsize hname, Sku.Inquiry.reply, Sku.verdict, hget]

theorem checkInstanceType_judged : (checkInstanceType p).against table =
    judged table p [.listed, .memoryNumber, .cpusNumber, .enoughMemory, .enoughCpus] := by
  have hmemory : (Sku.memoryOf p.location p.vmSize).against table = sku.number "MemoryGB" :=
    query_against hlocation hsize hget (q := .memory) nofun
  have hcpus : (Sku.cpusOf p.location p.vmSize).against table = sku.number "vCPUs" :=
    query_against hlocation hsize hget (q := .cpus) nofun
  have hleast : "memory has to be at least " ++ toString minMemoryGb ++ " GB, " =
      "memory has to be at least 16 GB, " := rfl
  have hleast' : "number of cores has to be at least " ++ toString minCpus ++ ", " =
      "number of cores has to be at least 4, " := rfl
  have hoffered := offered_of_listed hget
  simp only [checkInstanceType, against_bind_eq, hmemory, hcpus, number_eq, require_against, hleast,
    hleast', judged_cons, judged_nil, Demand.isMet, Demand.complaint, Demand.complaint.unreadable, hget,
    hoffered, Option.isSome_some, if_true]
  -- a number that cannot be read comes before a number that is too small
  cases quantity? sku "MemoryGB" with
  | none => rfl
  | some memory =>
    cases quantity? sku "vCPUs" with
    | none => rfl
    | some cpus =>
      by_cases hmin : 16 ≤ memory
      · by_cases hmin' : 4 ≤ cpus
        · simp [minMemoryGb, minCpus, hmin, hmin']
        · simp [minMemoryGb, minCpus, hmin, hmin']
      · simp [minMemoryGb, hmin]

theorem checkStorage_judged :
    (checkStorage p).against table = judged table p [.knownStorage, .premiumSupport] := by
  have hsupport : (Sku.hasCapability p.location p.vmSize Capability.premiumIo).against table =
      .ok (sku.supports "PremiumIO") :=
    query_against hlocation hsize hget (q := .support Capability.premiumIo) (by decide)
  have hstandard : standardStorage = "Standard_LRS" := rfl
  have hpremium : premiumStorage = "Premium_LRS" := rfl
  have hoffered := offered_of_listed hget
  simp only [checkStorage, against_bind_eq, require_against, judged_cons, judged_nil, Demand.isMet,
    Demand.complaint, hoffered, hstandard, hpremium]
  by_cases hselected : p.storageAccountType = "Premium_LRS"
  · simp [hselected, against_bind_eq, hsupport, require_against]
  · by_cases hother : p.storageAccountType = "Standard_LRS"
    · simp [hother, against_pure]
    · simp [hselected, hother]

theorem checkNetworking_judged :
    (checkNetworking p).against table = judged table p [.networkingSupport] := by
  have hsupport :
      (Sku.hasCapability p.location p.vmSize Capability.acceleratedNetworking).against table =
        .ok (sku.supports "AcceleratedNetworkingEnabled") :=
    query_against hlocation hsize hget (q := .support Capability.acceleratedNetworking) (by decide)
  have hoffered := offered_of_listed hget
  simp only [judged_cons, judged_nil, Demand.isMet, Demand.complaint, hoffered]
  unfold checkNetworking
  split
  next hon =>
    simp only [against_bind_eq, hsupport, require_against, hon, bne_self_eq_false, Bool.false_or]
  next hoff =>
    have hunneeded : (p.acceleratedNetworking != some true) = true := by
      rw [bne_iff_ne]
      exact hoff
    rw [hunneeded, Bool.true_or, if_pos rfl]
    rfl

theorem checkFailureDomain_judged :
    (checkFailureDomain p).against table = judged table p [.domain] := by
  have hzones : (Sku.zonesOf p.location p.vmSize).against table = .ok sku.zones :=
    query_against hlocation hsize hget (q := .zones) nofun
  have hoffered := offered_of_listed hget
  simp only [judged_cons, judged_nil, Demand.isMet, Demand.complaint, hoffered]
  unfold checkFailureDomain
  cases hdomain : p.effectiveFailureDomain with
  | none => rfl
  | some domain =>
    simp only [against_bind_eq, hzones, require_against]
    rfl

end Listed

theorem checkDisks_judged : (checkDisks p).against table = judged table p [.disks] := by
  rw [judged_cons, judged_nil]
  exact require_against _ _

theorem checkInstanceType_unlisted (hlocation : p.location ≠ "") (hsize : p.vmSize ≠ "")
    (hget : Dict.get? p.vmSize table = none) :
    (checkInstanceType p).against table = .error (.skuNotFound p.location p.vmSize) := by
  have hmemory : (Sku.memoryOf p.location p.vmSize).against table =
      .error (.skuNotFound p.location p.vmSize) := by
    have hreply : (Sku.Inquiry.memory.program p.location p.vmSize).against table = _ :=
      query_reply hlocation hsize nofun
    rw [Sku.Inquiry.reply, Sku.verdict, hget] at hreply
    exact hreply
  rw [checkInstanceType, against_bind_eq, hmemory]

/-- The rules for a new pool come to the verdict of the table. -/
theorem validateCreate_verdict (hlocation : p.location ≠ "") (hsize : p.vmSize ≠ "") :
    (validateCreate p).against table = verdict table p := by
  cases hget : Dict.get? p.vmSize table with
  | none =>
    have hmet : Demand.listed.isMet table p = false := by
      rw [Demand.isMet, hget]
      rfl
    rw [validateCreate, against_bind_eq, checkInstanceType_unlisted hlocation hsize hget, verdict,
      Demand.all, judged_cons, hmet]
    rfl
  | some sku =>
    -- the demands in the groups of the rules
    change _ = judged table p ([.listed, .memoryNumber, .cpusNumber, .enoughMemory, .enoughCpus] ++
      ([.knownStorage, .premiumSupport] ++ ([.networkingSupport] ++ ([.disks] ++ [.domain]))))
    apply judged_bind (checkInstanceType_judged hlocation hsize hget)
    apply judged_bind (checkStorage_judged hlocation hsize hget)
    apply judged_bind (checkNetworking_judged hlocation hsize hget)
    apply judged_bind checkDisks_judged
    exact checkFailureDomain_judged hlocation hsize hget

/-! ### What is accepted -/

/-- A SKU has a capability with the value of true, in any case. -/
def Reported (sku : Sku) (name : String) : Prop :=
  ∃ value, sku.capability? name = some value ∧ Text.sameIgnoringCase value "true" = true

theorem supports_iff {name : String} : sku.supports name = true ↔ Reported sku name := by
  have hlower : Capability.supported.toList.map Text.lower = "true".toList.map Text.lower := by decide
  have hcase : ∀ value, Text.sameIgnoringCase value Capability.supported =
      Text.sameIgnoringCase value "true" := by
    intro value
    rw [Text.sameIgnoringCase, Text.sameIgnoringCase, hlower]
  rw [Sku.supports, Reported]
  cases sku.capability? name with
  | none =>
    refine iff_of_false Bool.false_ne_true ?_
    rintro ⟨_, hvalue, _⟩
    cases hvalue
  | some value =>
    simp only [hcase]
    constructor
    · intro h
      exact ⟨value, rfl, h⟩
    · rintro ⟨_, hvalue, h⟩
      rw [Option.some.inj hvalue]
      exact h

/-- The table lists the VM size of a pool, with enough memory and cores, for its storage, for its
networking and in its failure domain, and its disks are the required ones. -/
def Admissible (table : RegionTable) (p : NodePool) : Prop :=
  ∃ sku memory cpus, Dict.get? p.vmSize table = some sku ∧
    (quantity? sku "MemoryGB" = some memory ∧ 16 ≤ memory) ∧
    (quantity? sku "vCPUs" = some cpus ∧ 4 ≤ cpus) ∧
    (p.storageAccountType = "Standard_LRS" ∨
      p.storageAccountType = "Premium_LRS" ∧ Reported sku "PremiumIO") ∧
    (p.acceleratedNetworking ≠ some true ∨ Reported sku "AcceleratedNetworkingEnabled") ∧
    p.dataDisks = DataDisk.desired ∧
    ∀ domain, p.effectiveFailureDomain = some domain → domain ∈ sku.zones

theorem verdict_ok : verdict table p = .ok () ↔ ∀ d : Demand, d.isMet table p = true := by
  have hall : ∀ d : Demand, d ∈ Demand.all := by
    intro d
    cases d <;> decide
  rw [verdict, judged_ok]
  constructor
  · intro h d
    exact h d (hall d)
  · intro h d _
    exact h d

/-- The first demand that is not met decides. -/
theorem verdict_of_first (hall : Demand.all = ds ++ d :: others)
    (hbefore : ∀ e ∈ ds, e.isMet table p = true) (hunmet : d.isMet table p = false) :
    verdict table p = .error (d.complaint table p) := by
  rw [verdict, hall, judged_append, judged_ok.mpr hbefore, judged_cons, hunmet]
  rfl

theorem verdict_ok_iff : verdict table p = .ok () ↔ Admissible table p := by
  rw [verdict_ok]
  constructor
  · intro h
    obtain ⟨sku, hget⟩ := Option.isSome_iff_exists.mp (h .listed)
    have hoffered := offered_of_listed hget
    obtain ⟨memory, hmemory, hmin⟩ := (Option.any_eq_true _ _).mp (h .enoughMemory)
    obtain ⟨cpus, hcpus, hmin'⟩ := (Option.any_eq_true _ _).mp (h .enoughCpus)
    have hstorage := h .knownStorage
    have hpremium := h .premiumSupport
    have hnetworking := h .networkingSupport
    have hdomain := h .domain
    simp only [Demand.isMet, hoffered] at hmemory hcpus hstorage hpremium hnetworking hdomain
    refine ⟨sku, memory, cpus, hget, ⟨hmemory, of_decide_eq_true hmin⟩,
      ⟨hcpus, of_decide_eq_true hmin'⟩, ?_, ?_, eq_of_beq (h .disks), ?_⟩
    · rcases Bool.or_eq_true_iff.mp hstorage with hstandard | hselected
      · exact Or.inl (eq_of_beq hstandard)
      · refine Or.inr ⟨eq_of_beq hselected, ?_⟩
        rw [eq_of_beq hselected] at hpremium
        exact supports_iff.mp hpremium
    · rcases Bool.or_eq_true_iff.mp hnetworking with hoff | hsupport
      · exact Or.inl (bne_iff_ne.mp hoff)
      · exact Or.inr (supports_iff.mp hsupport)
    · intro domain hset
      rw [hset] at hdomain
      exact List.contains_iff_mem.mp hdomain
  · rintro ⟨sku, memory, cpus, hget, ⟨hmemory, hmin⟩, ⟨hcpus, hmin'⟩, hstorage, hnetworking, hdisks,
      hdomain⟩ d
    have hoffered := offered_of_listed hget
    cases d with
    | listed => exact Option.isSome_of_eq_some hget
    | memoryNumber => simp [Demand.isMet, hoffered, hmemory]
    | cpusNumber => simp [Demand.isMet, hoffered, hcpus]
    | enoughMemory => simp [Demand.isMet, hoffered, hmemory, hmin]
    | enoughCpus => simp [Demand.isMet, hoffered, hcpus, hmin']
    | knownStorage =>
      rcases hstorage with hstandard | ⟨hselected, -⟩
      · simp [Demand.isMet, hstandard]
      · simp [Demand.isMet, hselected]
    | premiumSupport =>
      rcases hstorage with hstandard | ⟨-, hsupport⟩
      · simp [Demand.isMet, hstandard]
      · simp [Demand.isMet, hoffered, supports_iff.mpr hsupport]
    | networkingSupport =>
      rcases hnetworking with hoff | hsupport
      · simp [Demand.isMet, hoff]
      · simp [Demand.isMet, hoffered, supports_iff.mpr hsupport]
    | disks => simp [Demand.isMet, hdisks]
    | domain =>
      cases hset : p.effectiveFailureDomain with
      | none => simp [Demand.isMet, hset]
      | some domain => simp [Demand.isMet, hset, hoffered, hdomain domain hset]

end ClusterGate.NodePool
