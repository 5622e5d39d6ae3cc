import ClusterGate.Proofs.Engine.Strict
import ClusterGate.Proofs.Engine.Told
import ClusterGate.Proofs.NodePool.Defaults
import ClusterGate.Proofs.Sku.FailedLookup

/-!
# Failing closed

Whatever goes wrong outside while a check, a query, a default, a label or a review is under way, the
operation comes to an error that is a fault and tells what went wrong. It never comes to an answer or
a denial. Main statement: `failClosed`.
-/

namespace ClusterGate

/-! ### What can go wrong -/

/-- The kind of fault that a failure of a store or of the inventory is, unless it is a missing record. -/
def StorageError.faultKind? : StorageError → Option ErrorKind
  | .unavailable _ | .io _ => some .backendUnavailable
  | .decode _ => some .invalidResponse
  | .notFound .. => none

theorem GateError.faults_ofStorage {e : StorageError} {kind : ErrorKind}
    (h : e.faultKind? = some kind) : (GateError.ofStorage e).Faults kind := by
  cases e with
  | notFound => cases h
  | _ =>
    cases h
    exact ⟨rfl, rfl, rfl⟩

theorem GateError.faults_ofInterrupt (operation : String) (i : Interrupt) :
    (GateError.ofInterrupt operation i).Faults .cancelled := by
  cases i <;> exact ⟨rfl, rfl, rfl⟩

/-- The result is an error, and this is a fault of the given kind. -/
def FailedWith {α : Type} (kind : ErrorKind) (result : Option (Except GateError α)) : Prop :=
  ∃ error, result = some (.error error) ∧ error.Faults kind

namespace Lookup

/-- Inside a wrapped call: waiting for the lock, or for the inventory. -/
def isWrapped : Lookup → Bool
  | .missed | .queued | .fetching _ => true
  | _ => false

/-- The wrapped call is interrupted, or the inventory fails. -/
inductive Struck : Lookup → Option Interrupt → Option (Except StorageError (List Sku)) →
    ErrorKind → Prop where
  | interrupted {stage : Lookup} {i : Interrupt} {answer : Option (Except StorageError (List Sku))}
      (wrapped : stage.isWrapped = true) : Struck stage (some i) answer .cancelled
  | failed {e : StorageError} {kind : ErrorKind} (fault : e.faultKind? = some kind) :
      Struck (.fetching true) none (some (.error e)) kind

theorem Struck.step {stage : Lookup} {interrupt : Option Interrupt}
    {answer : Option (Except StorageError (List Sku))} {kind : ErrorKind}
    (h : stage.Struck interrupt answer kind) (c : RegionCache) (region : String) (id : LookupId) :
    ∃ cache error notes, c.step region id interrupt answer stage =
      some (cache, .done (.error error), notes) ∧ error.Faults kind := by
  cases h with
  | @interrupted stage i answer wrapped =>
    cases stage with
    | missed | queued | fetching =>
      exact ⟨_, _, _, rfl, GateError.faults_ofInterrupt _ i⟩
    | checking | locked | fetched | done => cases wrapped
  | failed fault => exact ⟨_, _, _, rfl, GateError.faults_ofStorage fault⟩

end Lookup

namespace Catalog

/-- A wrapped call of the store is interrupted, the store fails, or it lists a record whose name is no
version. -/
inductive Standing.Struck {α : Type} (l : Look) : Standing α → ErrorKind → Prop where
  | readingInterrupted {release : String} {called : Bool} {i : Interrupt}
      {next : Except GateError Components → Engine α} (fired : l.interrupt = some i) :
      Struck l (.reading release (.reading called) next) .cancelled
  | readingFailed {release : String} {e : StorageError} {kind : ErrorKind}
      {next : Except GateError Components → Engine α} (free : l.interrupt = none)
      (answered : l.record = some (.error e)) (fault : e.faultKind? = some kind) :
      Struck l (.reading release (.reading true) next) kind
  | listingInterrupted {called : Bool} {i : Interrupt}
      {next : Except GateError (List Record) → Engine α} (fired : l.interrupt = some i) :
      Struck l (.listing (.listing called) next) .cancelled
  | listingFailed {e : StorageError} {kind : ErrorKind}
      {next : Except GateError (List Record) → Engine α} (free : l.interrupt = none)
      (answered : l.records = some (.error e)) (fault : e.faultKind? = some kind) :
      Struck l (.listing (.listing true) next) kind
  | misnamed {records : List Record} {r : Record} {e : Version.Invalid}
      {next : Except GateError (List Record) → Engine α} (free : l.interrupt = none)
      (answered : l.records = some (.ok records)) (listed : r ∈ records)
      (unreadable : Version.parse r.name = .error e) :
      Struck l (.listing (.listing true) next) .invalidResponse

end Catalog

/-! ### What is done on a cache and on a catalog -/

def Sku.Inquiry.numbers : Sku.Inquiry → List String
  | .memory => [Capability.memory]
  | .cpus => [Capability.cpus]
  | .record => [Capability.memory, Capability.cpus]
  | _ => []

/-- What is done on a region cache. -/
inductive CacheTask where
  | create (p : NodePool)
  | update (old new : NodePool)
  | fill (p : NodePool) (location : String)
  | inquire (q : Sku.Inquiry) (region instanceType : String)

namespace CacheTask

abbrev Answer : CacheTask → Type
  | .create _ | .update _ _ => Unit
  | .fill _ _ => List Patch.Operation
  | .inquire q _ _ => q.Answer

def program : (t : CacheTask) → Engine t.Answer
  | .create p => p.validateCreate
  | .update old new => old.validateUpdate new
  | .fill p location => p.mutateCreate location
  | .inquire q region instanceType => q.program region instanceType

def wanted {α : Type} (t : CacheTask) (f : t.Answer → α) : Engine α :=
  t.program >>= fun a => pure (f a)

def region : CacheTask → String
  | .create p => p.location
  | .update _ new => new.location
  | .fill p location => (p.located location).location
  | .inquire _ region _ => region

def instanceType : CacheTask → String
  | .create p => p.vmSize
  | .update _ new => new.vmSize
  | .fill p _ => p.vmSize
  | .inquire _ _ instanceType => instanceType

/-- The numbers that the task reads, all of them or up to the first that cannot be read. -/
def numbers : CacheTask → List String
  | .create _ => [Capability.memory, Capability.cpus]
  | .update old new => if old.vmSize = new.vmSize then [] else [Capability.memory, Capability.cpus]
  | .fill _ _ => []
  | .inquire q _ _ => q.numbers

end CacheTask

/-- What is done on a catalog. -/
inductive CatalogTask where
  | label (object : Json) (component key : String)
  | review (old new : Version)

namespace CatalogTask

abbrev Answer : CatalogTask → Type
  | .label _ _ _ => Option Patch.Operation
  | .review _ _ => Upgrade.Decision

def program : (t : CatalogTask) → Engine t.Answer
  | .label object component key => Catalog.componentLabel object component key
  | .review old new => Upgrade.review old new

def wanted {α : Type} (t : CatalogTask) (f : t.Answer → α) : Engine α :=
  t.program >>= fun a => pure (f a)

theorem wanted_strict {α : Type} (t : CatalogTask) (f : t.Answer → α) : (t.wanted f).Strict := by
  refine Engine.Strict.bind ?_ fun _ => .done _
  cases t with
  | label => exact Catalog.componentLabel_strict
  | review => exact Upgrade.review_strict _ _

end CatalogTask

/-! ### Numbers that cannot be read -/

namespace Sku

variable {s : Sku} {name : String} {table : RegionTable} {region instanceType : String}

/-- The capability is missing or no number of 64 bits. -/
def Unreadable (s : Sku) (name : String) : Prop := (s.capability? name).bind Text.word? = none

theorem Unreadable.number (h : s.Unreadable name) :
    s.number name = .error (.invalidResponse s.name name (s.capability? name)) := by
  rw [Sku.number, h]

theorem Unreadable.second {memory : Nat} (h : s.Unreadable name)
    (hname : name ∈ [Capability.memory, Capability.cpus])
    (hmemory : s.number Capability.memory = .ok memory) : s.Unreadable Capability.cpus := by
  rcases List.mem_cons.mp hname with rfl | hname
  · rw [h.number] at hmemory
    cases hmemory
  · rwa [← List.mem_singleton.mp hname]

theorem Inquiry.ofSku_unreadable {q : Inquiry} (hname : name ∈ q.numbers) (h : s.Unreadable name) :
    ∃ error, q.ofSku s = .error error ∧ error.Faults .invalidResponse := by
  have herror : ∃ error, q.ofSku s = .error error := by
    cases q with
    | memory | cpus =>
      rw [List.mem_singleton.mp hname] at h
      exact ⟨_, h.number⟩
    | record =>
      simp only [ofSku, CapabilityRecord.ofSku]
      cases hmemory : s.number Capability.memory with
      | error e => exact ⟨e, rfl⟩
      | ok memory =>
        rw [(h.second hname hmemory).number]
        exact ⟨_, rfl⟩
    | sku | capability | support | zones => exact absurd hname List.not_mem_nil
  obtain ⟨error, herror⟩ := herror
  obtain ⟨capability, rfl⟩ := invalidResponse_of_ofSku herror
  exact ⟨_, herror, GateError.faults_invalidResponse _ _ _⟩

/-- Judged by a table that lists the SKU, a query is answered from it. -/
theorem Inquiry.against_program {q : Inquiry} (hasked : q.refusal? region instanceType = none)
    (hget : Dict.get? instanceType table = some s) :
    (q.program region instanceType).against table = q.ofSku s := by
  rw [program_eq hasked, Engine.against_ask, Engine.against_done, reply, verdict]
  simp only [hget]

end Sku

namespace CacheTask

open Engine

variable {α : Type} {t : CacheTask} {f : t.Answer → α} {s : Sku} {name : String}
  {table : RegionTable}

theorem wanted_strict (t : CacheTask) (f : t.Answer → α) : (t.wanted f).Strict := by
  refine Strict.bind ?_ fun _ => .done _
  cases t with
  | create => exact NodePool.validateCreate_strict
  | update => exact NodePool.validateUpdate_strict
  | fill => exact NodePool.mutateCreate_strict
  | inquire q => exact q.program_strict

theorem inquire_restsOn {q : Sku.Inquiry} {region instanceType : String} :
    (q.program region instanceType).RestsOn region := by
  cases hrefusal : q.refusal? region instanceType with
  | some detail =>
    rw [Sku.Inquiry.program_of_refusal hrefusal]
    exact .done _
  | none =>
    rw [Sku.Inquiry.program_eq hrefusal]
    exact .ask (fun error => ⟨error, rfl⟩) ⟨.skuNotFound region instanceType, rfl⟩ fun _ => .done _

theorem wanted_restsOn (t : CacheTask) (f : t.Answer → α) : (t.wanted f).RestsOn t.region := by
  refine RestsOn.bind ?_ fun _ => .done _
  cases t with
  | create => exact NodePool.validateCreate_restsOn
  | update => exact NodePool.validateUpdate_restsOn
  | fill => exact NodePool.mutateCreate_restsOn
  | inquire => exact inquire_restsOn

theorem against_checks {β : Type} {p : NodePool} {g : Unit → Engine β}
    (hasks : ∀ result, (NodePool.checkInstanceType p >>= g) ≠ .done result)
    (hget : Dict.get? p.vmSize table = some s) (hname : name ∈ [Capability.memory, Capability.cpus])
    (h : s.Unreadable name) :
    ∃ error, (NodePool.checkInstanceType p >>= g).against table = .error error ∧
      error.Faults .invalidResponse := by
  cases hrefusal : Sku.Inquiry.memory.refusal? p.location p.vmSize with
  | some detail =>
    refine absurd ?_ (hasks (.error (.invalidRequest detail)))
    have hmemory : Sku.memoryOf p.location p.vmSize = _ := Sku.Inquiry.program_of_refusal hrefusal
    rw [NodePool.checkInstanceType, hmemory]
    rfl
  | none =>
    have hmemory : (Sku.memoryOf p.location p.vmSize).against table = s.number Capability.memory :=
      Sku.Inquiry.against_program hrefusal hget
    have hcpus : (Sku.cpusOf p.location p.vmSize).against table = s.number Capability.cpus :=
      Sku.Inquiry.against_program (q := .cpus) hrefusal hget
    simp only [NodePool.checkInstanceType, against_bind_eq, hmemory]
    cases hfirst : s.number Capability.memory with
    | error e =>
      rw [Sku.Inquiry.invalidResponse_of_number hfirst]
      exact ⟨_, rfl, GateError.faults_invalidResponse _ _ _⟩
    | ok memory =>
      simp only [hcpus, (h.second hname hfirst).number]
      exact ⟨_, rfl, GateError.faults_invalidResponse _ _ _⟩

theorem require_bind {β : Type} {condition : Bool} {detail : String} {g : Unit → Engine β} :
    (require condition detail >>= g) = g () ∨
      ∃ result, (require condition detail >>= g) = .done result := by
  cases condition with
  | true => exact Or.inl rfl
  | false => exact Or.inr ⟨_, rfl⟩

/-- An update is refused before it asks anything, or only its rules on sizes are left. -/
theorem validateUpdate_cases (old new : NodePool) :
    NodePool.validateUpdate old new = NodePool.checkSizeUpdate old new ∨
      ∃ result, NodePool.validateUpdate old new = .done result := by
  unfold NodePool.validateUpdate NodePool.checkNetworkingUnchanged
    NodePool.checkFailureDomainUnchanged NodePool.checkStorageUnchanged
  rcases require_bind (g := fun _ => _) with hnetworking | hrefused
  · rw [hnetworking]
    rcases require_bind (g := fun _ => _) with hdomain | hrefused
    · rw [hdomain]
      exact require_bind
    · exact Or.inr hrefused
  · exact Or.inr hrefused

theorem against_unreadable (hasks : ∀ result, t.program ≠ .done result)
    (hget : Dict.get? t.instanceType table = some s) (hname : name ∈ t.numbers)
    (h : s.Unreadable name) :
    ∃ error, t.program.against table = .error error ∧ error.Faults .invalidResponse := by
  cases t with
  | create p => exact against_checks hasks hget hname h
  | update old new =>
    rcases validateUpdate_cases old new with hsize | ⟨result, hrefused⟩
    · rw [program, hsize, NodePool.checkSizeUpdate] at hasks ⊢
      rw [numbers] at hname
      split_ifs at hasks hname ⊢ with hsame
      · exact absurd hname List.not_mem_nil
      · exact against_checks hasks hget hname h
    · exact absurd hrefused (hasks result)
  | fill => exact absurd hname List.not_mem_nil
  | inquire q region instanceType =>
    cases hrefusal : q.refusal? region instanceType with
    | some detail => exact absurd (Sku.Inquiry.program_of_refusal hrefusal) (hasks _)
    | none =>
      obtain ⟨error, herror, hfault⟩ := Sku.Inquiry.ofSku_unreadable hname h
      refine ⟨error, ?_, hfault⟩
      rw [program, Sku.Inquiry.against_program hrefusal hget, herror]

theorem wanted_unreadable (hasks : ∀ result, t.wanted f ≠ .done result)
    (hget : Dict.get? t.instanceType table = some s) (hname : name ∈ t.numbers)
    (h : s.Unreadable name) :
    ∃ error, (t.wanted f).against table = .error error ∧ error.Faults .invalidResponse := by
  have hprogram : ∀ result, t.program ≠ .done result := by
    rintro (error | a) hdone
    · exact hasks (.error error) (by rw [wanted, hdone]; rfl)
    · exact hasks (.ok (f a)) (by rw [wanted, hdone]; rfl)
  obtain ⟨error, herror, hfault⟩ := against_unreadable hprogram hget hname h
  refine ⟨error, ?_, hfault⟩
  rw [wanted, against_bind_eq, herror]

end CacheTask

/-! ### Calls on the region cache -/

namespace Traffic

variable {α : Type} {earlier : List (Move α)} {id : LookupId} {interrupt : Option Interrupt}
  {answer : Option (Except StorageError (List Sku))} {kind : ErrorKind} {program : Engine α}

theorem failed_of_struck {region : String} {stage : Lookup}
    {next : Except GateError RegionTable → Engine α} (hstrict : program.Strict)
    (hcall : (after earlier).program? id = some program)
    (here : (after earlier).progress? id = some (.looking region stage next))
    (hstruck : stage.Struck interrupt answer kind) (later : List (Move α)) :
    FailedWith kind ((after (earlier ++ .go id interrupt answer :: later)).result? id) := by
  obtain ⟨cache, error, notes, hstep, hfault⟩ := hstruck.step (after earlier).cache region id
  have hasked : (Engine.ask (.region region) next).Strict :=
    hstrict.follows (attained_of_call here hcall)
  have hnext : next (.error error) = .done (.error error) := by
    cases hasked with
    | region faults _ => exact faults error hfault.fault
  have htells : (after earlier).Tells id interrupt answer (.error error) :=
    ⟨region, stage, next, cache, notes, here, hstep⟩
  have hresult : ((after earlier).step (.go id interrupt answer)).result? id =
      some (.error error) := by
    obtain ⟨_, _, _, there, hrunning, -⟩ := htells.told
    rw [here] at there
    cases there
    rw [result?, hrunning, hnext]
    rfl
  rw [after_append, run, List.foldl_cons, ← run]
  exact ⟨error, result?_run hresult later, hfault⟩

theorem asks_of_tells {result : Except GateError RegionTable}
    (hcall : (after earlier).program? id = some program)
    (htells : (after earlier).Tells id interrupt answer result) (r : Except GateError α) :
    program ≠ .done r := by
  rintro rfl
  obtain ⟨_, _, _, here, -⟩ := htells.told
  exact nomatch (attained_of_call here hcall).eq_of_done

end Traffic

/-! ### Visits to the catalog -/

namespace Catalog

open Engine

variable {α : Type} {v : Visit α} {l : Look} {kind : ErrorKind}

/-- A visit that ends with every fault that it is told. -/
def Standing.Strict : Standing α → Prop
  | .reading release _ next => (Engine.ask (.components release) next).Strict
  | .listing _ next => (Engine.ask .releases next).Strict
  | _ => True

theorem Standing.ofEngine_strict {e : Engine α} (h : e.Strict) : (Standing.ofEngine e).Strict := by
  induction h with
  | note _ ih => exact ih
  | components faults rest => exact .components faults rest
  | releases faults misnamed rest => exact .releases faults misnamed rest
  | done | region => trivial

theorem Visit.looked_strict (h : v.standing.Strict) (memo : ComponentMemo) (l : Look) :
    (v.looked memo l).standing.Strict := by
  obtain ⟨program, standing, looks, calls, notes⟩ := v
  cases standing with
  | reading release stage next =>
    cases h with
    | components faults rest =>
      simp only [Visit.looked, Standing.look]
      split
      next => exact .components faults rest
      next memo' stage' hstep =>
        cases stage' with
        | done result => exact Standing.ofEngine_strict (rest result)
        | _ => exact .components faults rest
  | listing stage next =>
    cases h with
    | releases faults misnamed rest =>
      simp only [Visit.looked, Standing.look]
      split
      next => exact .releases faults misnamed rest
      next result hstep => exact Standing.ofEngine_strict (rest result)
      next => exact .releases faults misnamed rest
  | ended | elsewhere => trivial

theorem Standing.ended_of_fault {γ : Type} {next : Except GateError γ → Engine α} {error : GateError}
    (faults : EndsWithFaults next) (h : error.Faults kind) :
    Standing.ofEngine (next (.error error)) = .ended (.error error) := by
  rw [faults error h.fault]
  rfl

theorem Standing.Struck.ended {standing : Standing α} (h : standing.Struck l kind)
    (hstrict : standing.Strict) (memo : ComponentMemo) :
    ∃ error, (standing.look memo l).standing = .ended (.error error) ∧ error.Faults kind := by
  obtain ⟨interrupt, record, records⟩ := l
  cases h with
  | @readingInterrupted release called i next fired =>
    cases fired
    cases hstrict with
    | components faults _ =>
      have hfault := GateError.faults_ofInterrupt ComponentMemo.readOperation i
      exact ⟨_, Standing.ended_of_fault faults hfault, hfault⟩
  | readingFailed free answered fault =>
    cases free
    cases answered
    cases hstrict with
    | components faults _ =>
      have hfault := GateError.faults_ofStorage fault
      exact ⟨_, Standing.ended_of_fault faults hfault, hfault⟩
  | @listingInterrupted called i next fired =>
    cases fired
    cases hstrict with
    | releases faults _ _ =>
      have hfault := GateError.faults_ofInterrupt CatalogListing.listOperation i
      exact ⟨_, Standing.ended_of_fault faults hfault, hfault⟩
  | listingFailed free answered fault =>
    cases free
    cases answered
    cases hstrict with
    | releases faults _ _ =>
      have hfault := GateError.faults_ofStorage fault
      exact ⟨_, Standing.ended_of_fault faults hfault, hfault⟩
  | @misnamed records r e next free answered listed unreadable =>
    cases free
    cases answered
    cases hstrict with
    | releases _ misnamed _ =>
      obtain ⟨error, hnext, hfault⟩ := misnamed records r listed e unreadable
      refine ⟨error, ?_, hfault⟩
      show Standing.ofEngine (next (.ok records)) = _
      rw [hnext]
      rfl

theorem Visits.failed_of_struck {earlier : List (Turn α)} {id : Nat} (hstrict : v.program.Strict)
    (hvisit : (Visits.after earlier).visit? id = some v) (hstruck : v.standing.Struck l kind)
    (later : List (Turn α)) :
    ∃ w, (Visits.after (earlier ++ .go id l :: later)).visit? id = some w ∧
      FailedWith kind w.result? := by
  have hstanding : v.standing.Strict := by
    refine visit_of_program (Q := fun v => v.standing.Strict) (Standing.ofEngine_strict hstrict)
      (fun v memo l hv => Visit.looked_strict hv memo l) hvisit rfl
  obtain ⟨error, hended, hfault⟩ := hstruck.ended hstanding (Visits.after earlier).memo
  have hlooked := Visits.visit?_go hvisit l (i := id)
  rw [if_pos rfl] at hlooked
  obtain ⟨w, hw, hresult, -⟩ := ended_run hlooked hended later
  rw [after_append, run, List.foldl_cons, ← run]
  refine ⟨w, hw, error, ?_, hfault⟩
  rw [Visit.result?, hresult]
  rfl

end Catalog

/-! ### All operations -/

open Traffic Catalog in
/-- What may be relied on when something outside goes wrong: the operation comes to an error that is a
fault of the kind of its cause, and this is its result for good. -/
structure FailClosed (α : Type) : Prop where
  /-- A wrapped call in which a lookup is, is interrupted, or the inventory fails. -/
  lookups : ∀ (t : CacheTask) (f : t.Answer → α) (earlier later : List (Move α)) (id : LookupId)
    (interrupt : Option Interrupt) (answer : Option (Except StorageError (List Sku)))
    (region : String) (stage : Lookup) (next : Except GateError RegionTable → Engine α)
    (kind : ErrorKind), (after earlier).program? id = some (t.wanted f) →
    (after earlier).progress? id = some (.looking region stage next) →
    stage.Struck interrupt answer kind →
    FailedWith kind ((after (earlier ++ .go id interrupt answer :: later)).result? id)
  /-- A number that the task reads cannot be read in the table that it is told. It may have to look
  up the table once more to find out, which nothing can keep it from. -/
  numbers : ∀ (t : CacheTask) (f : t.Answer → α) (earlier : List (Move α)) (id : LookupId)
    (interrupt : Option Interrupt) (answer : Option (Except StorageError (List Sku)))
    (table : RegionTable) (s : Sku) (name : String),
    (after earlier).program? id = some (t.wanted f) →
    (after earlier).Tells id interrupt answer (.ok table) →
    Dict.get? t.instanceType table = some s → name ∈ t.numbers → s.Unreadable name →
    ∃ k, ∀ later,
      (∀ result, (after (earlier ++ .go id interrupt answer :: later)).result? id = some result →
        FailedWith .invalidResponse (some result)) ∧
      (k ≤ later.countP (Move.isOf id) → FailedWith .invalidResponse
        ((after (earlier ++ .go id interrupt answer :: later)).result? id))
  /-- A wrapped call of the store is interrupted, the store fails, or a listed name is no version. -/
  visits : ∀ (t : CatalogTask) (f : t.Answer → α) (earlier later : List (Turn α)) (id : Nat)
    (l : Look) (v : Visit α) (kind : ErrorKind), (Visits.after earlier).visit? id = some v →
    v.program = t.wanted f → v.standing.Struck l kind →
    ∃ w, (Visits.after (earlier ++ .go id l :: later)).visit? id = some w ∧
      FailedWith kind w.result?

theorem failClosed (α : Type) : FailClosed α := by
  refine ⟨?lookups, ?numbers, ?visits⟩
  case lookups =>
    intro t f earlier later id interrupt answer region stage next kind hcall here hstruck
    exact Traffic.failed_of_struck (t.wanted_strict f) hcall here hstruck later
  case numbers =>
    intro t f earlier id interrupt answer table s name hcall htells hget hname hunreadable
    have hne : table ≠ [] := by
      rintro rfl
      cases hget
    obtain ⟨error, hverdict, hfault⟩ :=
      CacheTask.wanted_unreadable (Traffic.asks_of_tells hcall htells) hget hname hunreadable
    obtain ⟨k, hk⟩ := Traffic.result?_of_told (t.wanted_restsOn f) hcall htells hne
    refine ⟨k, fun later => ⟨fun result hresult => ?_, fun henough => ?_⟩⟩
    · rw [(hk later).1 result hresult, hverdict]
      exact ⟨error, rfl, hfault⟩
    · rw [(hk later).2 henough, hverdict]
      exact ⟨error, rfl, hfault⟩
  case visits =>
    intro t f earlier later id l v kind hvisit hprogram hstruck
    exact Catalog.Visits.failed_of_struck (hprogram ▸ t.wanted_strict f) hvisit hstruck later

open Traffic Catalog in
/-- The inventory breaks down while a pool is checked, or lists its size without a readable number of
cores; and the catalog lists a record under a name that is no version. -/
theorem failClosed_breakdown :
    let check := (CacheTask.create { location := "westeurope", vmSize := "D4" }).wanted fun _ => ()
    let review := (CatalogTask.review (.ofNumbers 11 0 0) (.ofNumbers 12 0 0)).wanted fun _ => ()
    let wait : Move Unit := .go 0 none none
    let called := .enter check :: List.replicate 6 wait
    let d4 : Sku := ⟨"D4", [], [⟨"MemoryGB", "16"⟩, ⟨"vCPUs", "four"⟩]⟩
    let listed := called ++ [.go 0 none (some (.ok [d4]))]
    let records := [Record.release "v11", Record.release "latest"]
    FailedWith .backendUnavailable
        ((after (called ++ [.go 0 none (some (.error (.io "reset")))])).result? 0) ∧
      (∃ later, FailedWith .invalidResponse ((after (listed ++ wait :: later)).result? 0)) ∧
      ∃ w, (Visits.after [.enter review, .go 0 {}, .go 0 { records := some (.ok records) }]).visit? 0 =
        some w ∧ FailedWith .invalidResponse w.result? := by
  intro check review wait called d4 listed records
  obtain ⟨hlookups, hnumbers, hvisits⟩ := failClosed Unit
  refine ⟨?_, ?_, ?_⟩
  · have hcall : (after called).program? 0 = some check := by cbv
    obtain ⟨next, here⟩ : ∃ next, (after called).progress? 0 =
        some (.looking "westeurope" (.fetching true) next) := ⟨_, by cbv⟩
    exact hlookups _ _ called [] 0 none _ _ _ next .backendUnavailable hcall here (.failed rfl)
  · have hcall : (after listed).program? 0 = some check := by cbv
    obtain ⟨next, here⟩ : ∃ next, (after listed).progress? 0 =
        some (.looking "westeurope" (.fetched [d4]) next) := ⟨_, by cbv⟩
    have htells : (after listed).Tells 0 none none (.ok (.ofListing [d4])) :=
      ⟨_, _, next, _, _, here, rfl⟩
    have hget : Dict.get? "D4" (RegionTable.ofListing [d4]) = some d4 := rfl
    have hunreadable : d4.Unreadable Capability.cpus := rfl
    clear_value listed
    obtain ⟨k, hk⟩ := hnumbers _ _ listed 0 none none _ d4 Capability.cpus hcall htells hget
      (List.mem_cons_of_mem _ List.mem_cons_self) hunreadable
    have hcount : k ≤ (List.replicate k wait).countP (Move.isOf 0) := by
      have hown : Move.isOf 0 wait = true := rfl
      rw [List.countP_replicate, if_pos hown]
    exact ⟨_, (hk (List.replicate k wait)).2 hcount⟩
  · have hvisit : ∃ v, (Visits.after [.enter review, .go 0 {}]).visit? 0 = some v ∧
        v.program = review ∧ v.standing.Struck { records := some (.ok records) } .invalidResponse :=
      ⟨_, rfl, rfl, .misnamed rfl rfl (List.mem_cons_of_mem _ List.mem_cons_self) rfl⟩
    obtain ⟨v, hv, hprogram, hstruck⟩ := hvisit
    exact hvisits _ _ [.enter review, .go 0 {}] [] 0 { records := some (.ok records) } v
      .invalidResponse hv hprogram hstruck

end ClusterGate
