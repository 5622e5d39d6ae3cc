import ClusterGate.Proofs.Sku.Queries

/-!
# The queries as one family

Every query about an instance type is refused at once for an empty name, or asks for the table of its
region once and takes its answer from the SKU that is listed there. Main statement:
`Inquiry.program_eq`.
-/

namespace ClusterGate.Sku

/-- What may be asked about an instance type in a region. -/
inductive Inquiry where
  | sku
  | memory
  | cpus
  | capability (name : String)
  | support (name : String)
  | record
  | zones
deriving DecidableEq, Repr

namespace Inquiry

abbrev Answer : Inquiry → Type
  | .sku => Sku
  | .memory | .cpus => Nat
  | .capability _ => Option String
  | .support _ => Bool
  | .record => CapabilityRecord
  | .zones => List String

def program (region instanceType : String) : (q : Inquiry) → Engine q.Answer
  | .sku => resolve region instanceType
  | .memory => memoryOf region instanceType
  | .cpus => cpusOf region instanceType
  | .capability name => capabilityOf region instanceType name
  | .support name => hasCapability region instanceType name
  | .record => recordOf region instanceType
  | .zones => zonesOf region instanceType

/-- The answer, or the complaint about a value, that the SKU gives. -/
def ofSku (s : Sku) : (q : Inquiry) → Except GateError q.Answer
  | .sku => .ok s
  | .memory => s.number Capability.memory
  | .cpus => s.number Capability.cpus
  | .capability name => .ok (s.capability? name)
  | .support name => .ok (s.supports name)
  | .record => CapabilityRecord.ofSku s
  | .zones => .ok s.zones

/-- The name of the capability that is asked for, if one is named. -/
def name? : Inquiry → Option String
  | .capability name | .support name => some name
  | _ => none

/-- Why a query is refused before anything is looked up. -/
def refusal? (region instanceType : String) (q : Inquiry) : Option String :=
  if q.name? = some "" then some "capability name can't be empty"
  else if region = "" then some "region can't be empty"
  else if instanceType = "" then some "instance type can't be empty"
  else none

/-- The answer to a query, given what its region is found to have. -/
def reply (region instanceType : String) (q : Inquiry) (result : Except GateError RegionTable) :
    Except GateError q.Answer :=
  match verdict region instanceType result with
  | .ok s => q.ofSku s
  | .error e => .error e

variable {region instanceType detail : String} {q : Inquiry}

theorem program_of_resolve {error : GateError} (hname : q.name? ≠ some "")
    (h : resolve region instanceType = .done (.error error)) :
    q.program region instanceType = .done (.error error) := by
  cases q with
  | capability name | support name =>
    have hne : name ≠ "" := fun heq => hname (congrArg some heq)
    simp only [program, hasCapability, capabilityOf, if_neg hne, h]
    rfl
  | sku => exact h
  | _ =>
    simp only [program, memoryOf, cpusOf, recordOf, zonesOf, h]
    rfl

theorem program_of_refusal (h : q.refusal? region instanceType = some detail) :
    q.program region instanceType = .done (.error (.invalidRequest detail)) := by
  unfold refusal? at h
  split at h
  next hname =>
    cases h
    cases q with
    | capability name | support name =>
      cases hname
      rfl
    | _ => cases hname
  next hname =>
    refine program_of_resolve hname ?_
    unfold resolve
    split at h
    next hregion =>
      cases h
      rw [if_pos hregion]
      rfl
    next hregion =>
      split at h
      next htype =>
        cases h
        rw [if_neg hregion, if_pos htype]
        rfl
      next => cases h

theorem resolve_bind_eq {β : Type} {f : Sku → Engine β} {g : Sku → Except GateError β}
    (hregion : region ≠ "") (htype : instanceType ≠ "") (hfg : ∀ s, f s = .done (g s)) :
    (resolve region instanceType >>= f) = .ask (.region region) fun result => .done
      (match verdict region instanceType result with
      | .ok s => g s
      | .error e => .error e) := by
  rw [resolve_eq hregion htype]
  refine congrArg (Engine.ask (.region region)) (funext fun result => ?_)
  change (Engine.done (verdict region instanceType result)).bind f = _
  cases verdict region instanceType result with
  | ok s => exact hfg s
  | error e => rfl

theorem program_eq (h : q.refusal? region instanceType = none) :
    q.program region instanceType =
      .ask (.region region) fun result => .done (q.reply region instanceType result) := by
  obtain ⟨hname, hregion, htype⟩ :
      q.name? ≠ some "" ∧ region ≠ "" ∧ instanceType ≠ "" := by
    simpa [refusal?, ite_eq_iff] using h
  have hcapability : ∀ name, name ≠ "" → capabilityOf region instanceType name =
      .ask (.region region) fun result => .done
        (reply region instanceType (.capability name) result) := by
    intro name hne
    rw [capabilityOf, if_neg hne]
    exact resolve_bind_eq hregion htype fun _ => rfl
  cases q with
  | sku =>
    rw [program, resolve_eq hregion htype]
    refine congrArg (Engine.ask (.region region)) (funext fun result => ?_)
    rw [reply]
    cases verdict region instanceType result with
    | ok s => rfl
    | error e => rfl
  | capability name => exact hcapability name fun heq => hname (congrArg some heq)
  | support name =>
    rw [program, hasCapability, hcapability name fun heq => hname (congrArg some heq)]
    refine congrArg (Engine.ask (.region region)) (funext fun result => ?_)
    simp only [reply]
    cases verdict region instanceType result with
    | ok s =>
      simp only [ofSku, supports]
      cases s.capability? name with
      | some value => rfl
      | none => rfl
    | error e => rfl
  | _ => exact resolve_bind_eq hregion htype fun _ => rfl

end Inquiry

end ClusterGate.Sku
