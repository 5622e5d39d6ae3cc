import ClusterGate.Engine

/-!
# Engines with everything at hand

Runs an engine on its own: its questions are answered by the steps of the region cache, of the
component memo and of the catalog listing, and every call that these make is answered at once.
-/

namespace ClusterGate.Direct

/-- What answers the calls. The inventory may change with each call; `σ` is its state. -/
structure Surroundings (σ : Type) where
  /-- What interrupts an operation, if anything does: before it makes its call, or after. -/
  interrupt : String → Bool → Option Interrupt := fun _ _ => none
  records : Except StorageError (List Record)
  record : String → Except StorageError (Option Record)
  listing : String → σ → Except StorageError (List Sku) × σ

structure Kept (σ : Type) where
  inventory : σ
  cache : RegionCache := {}
  memo : ComponentMemo := []
  ledger : Ledger := {}

variable {σ : Type}

namespace Surroundings

/-! ### What interrupts a question where it stands -/

def interruptListing? (s : Surroundings σ) : CatalogListing → Option Interrupt
  | .listing called => s.interrupt CatalogListing.listOperation called
  | .done _ => none

def interruptReading? (s : Surroundings σ) : Reading → Option Interrupt
  | .reading called => s.interrupt ComponentMemo.readOperation called
  | .checking | .decoded _ | .done _ => none

def interruptLookup? (s : Surroundings σ) : Lookup → Option Interrupt
  | .missed => s.interrupt RegionCache.waitOperation false
  | .queued => s.interrupt RegionCache.waitOperation true
  | .fetching called => s.interrupt RegionCache.fetchOperation called
  | .checking | .locked | .fetched _ | .done _ => none

end Surroundings

def settleListing (s : Surroundings σ) : Nat → CatalogListing → Except GateError (List Record)
  | 0, _ => .error (.cancelled CatalogListing.listOperation)
  | fuel + 1, stage => match stage with
    | .done r => r
    | stage => match stage.step (s.interruptListing? stage) (some s.records) with
      | some next => settleListing s fuel next
      | none => .error (.cancelled CatalogListing.listOperation)

def settleReading (s : Surroundings σ) (release : String) :
    Nat → Reading → Kept σ → Except GateError Components × Kept σ
  | 0, _, k => (.error (.cancelled ComponentMemo.readOperation), k)
  | fuel + 1, stage, k => match stage with
    | .done r => (r, k)
    | stage => match k.memo.step release (s.interruptReading? stage) (some (s.record release)) stage with
      | some (memo, next) => settleReading s release fuel next { k with memo := memo }
      | none => (.error (.cancelled ComponentMemo.readOperation), k)

/-- Moves a lookup of a region to its end. The inventory is called when the lookup calls it. -/
def settleLookup (s : Surroundings σ) (region : String) :
    Nat → Lookup → Option (Except StorageError (List Sku)) → Kept σ →
      Except GateError RegionTable × Kept σ
  | 0, _, _, k => (.error (.cancelled RegionCache.fetchOperation), k)
  | fuel + 1, stage, answer, k => match stage with
    | .done r => (r, k)
    | stage => match k.cache.step region 0 (s.interruptLookup? stage) answer stage with
      | some (cache, next, ns) =>
        let k := { k with cache := cache, ledger := k.ledger.notes ns }
        match next with
        | .fetching true =>
          let (r, inventory) := s.listing region k.inventory
          settleLookup s region fuel next (some r) { k with inventory := inventory }
        | _ => settleLookup s region fuel next answer k
      | none => (.error (.cancelled RegionCache.fetchOperation), k)

/-- The number of steps that is always enough. -/
def maxSteps : Nat := 9

/-! ### What comes of a question

The steps given are enough: a listing and a reading end in one of the ways that their steps provide. -/

/-- What interrupts an operation at either time. -/
def Surroundings.interrupt? (s : Surroundings σ) (operation : String) : Option Interrupt :=
  (s.interrupt operation false).or (s.interrupt operation true)

/-- A listing is interrupted, or the answer to it is the answer. -/
theorem settleListing_start (s : Surroundings σ) :
    settleListing s maxSteps (.listing false) = match s.interrupt? CatalogListing.listOperation with
      | some i => .error (.ofInterrupt CatalogListing.listOperation i)
      | none => match s.records with
        | .ok records => .ok records
        | .error e => .error (.ofStorage e) := by
  rcases hbefore : s.interrupt CatalogListing.listOperation false with _ | i
  · rcases hwithin : s.interrupt CatalogListing.listOperation true with _ | i <;>
      rcases hr : s.records with e | rs <;>
      simp [settleListing, maxSteps, CatalogListing.step, guarded, Surroundings.interruptListing?,
        Surroundings.interrupt?, hbefore, hwithin, hr]
  · simp [settleListing, maxSteps, CatalogListing.step, guarded, Surroundings.interruptListing?,
      Surroundings.interrupt?, hbefore]

/-- Remembered components are there whatever interrupts; else the record is read and its components
are remembered. -/
theorem settleReading_start (s : Surroundings σ) (release : String) (k : Kept σ) :
    settleReading s release maxSteps .checking k =
      match k.memo.get? release, s.interrupt? ComponentMemo.readOperation with
      | some components, _ => (.ok components, k)
      | none, some i => (.error (.ofInterrupt ComponentMemo.readOperation i), k)
      | none, none => match ComponentMemo.ofAnswer release (s.record release) with
        | .ok components => (.ok components, { k with memo := k.memo.insert release components })
        | .error e => (.error e, k) := by
  rcases hm : k.memo.get? release with _ | components
  · rcases hbefore : s.interrupt ComponentMemo.readOperation false with _ | i
    · rcases hwithin : s.interrupt ComponentMemo.readOperation true with _ | i
      · rcases ha : ComponentMemo.ofAnswer release (s.record release) with e | components <;>
          simp [settleReading, maxSteps, ComponentMemo.step, guarded, Surroundings.interruptReading?,
            Surroundings.interrupt?, hm, hbefore, hwithin, ha, ComponentMemo.remember]
      · simp [settleReading, maxSteps, ComponentMemo.step, guarded, Surroundings.interruptReading?,
          Surroundings.interrupt?, hm, hbefore, hwithin]
    · simp [settleReading, maxSteps, ComponentMemo.step, guarded, Surroundings.interruptReading?,
        Surroundings.interrupt?, hm, hbefore]
  · simp [settleReading, maxSteps, ComponentMemo.step, hm]

def answer (s : Surroundings σ) : (q : Query) → Kept σ → Except GateError q.Answer × Kept σ
  | .region name, k => settleLookup s name maxSteps .checking none k
  | .components release, k => settleReading s release maxSteps .checking k
  | .releases, k => (settleListing s maxSteps (.listing false), k)

def run {α : Type} (s : Surroundings σ) (e : Engine α) (k : Kept σ) : Except GateError α × Kept σ :=
  e.run (answer s) (fun n k => { k with ledger := k.ledger.note n }) k

end ClusterGate.Direct
