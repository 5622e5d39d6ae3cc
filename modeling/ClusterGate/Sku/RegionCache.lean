import ClusterGate.Sku.Basic
import ClusterGate.Context
import ClusterGate.Telemetry.Event

/-!
# The region cache

The cache keeps the table of each region that was fetched. A lookup looks for a table, waits in the
queue of the region's lock if there is none, looks again, and fetches only if there still is none.
The head of a queue holds the lock; who leaves it hands it to the next in line. An empty table is
kept but never counts as found.

A lookup moves in steps, so that any interleaving of lookups is a sequence of steps. What a step
learns from outside is whether its context interrupts it and whether the inventory has answered.
-/

namespace ClusterGate

abbrev LookupId := Nat

/-- The tables and the lock queues of all regions. -/
structure RegionCache where
  tables : Dict RegionTable := []
  queues : Dict (List LookupId) := []
deriving Repr, Inhabited

inductive Lookup where
  /-- About to look for the table. -/
  | checking
  /-- Found no table, about to queue for the lock. -/
  | missed
  /-- In the queue of the lock. -/
  | queued
  /-- Holds the lock, about to look again. -/
  | locked
  /-- Holds the lock and fetches; the call is made or not yet made. -/
  | fetching (called : Bool)
  /-- Holds the lock and the listing. -/
  | fetched (listing : List Sku)
  | done (result : Except GateError RegionTable)

namespace RegionCache

/-- The table of a region, unless it is empty. -/
def stored? (c : RegionCache) (region : String) : Option RegionTable :=
  (c.tables.get? region).filter fun table => !table.isEmpty

def queue (c : RegionCache) (region : String) : List LookupId := (c.queues.get? region).getD []

def join (c : RegionCache) (region : String) (id : LookupId) : RegionCache :=
  { c with queues := c.queues.insert region (c.queue region ++ [id]) }

/-- Takes a lookup out of the queue, from any place. -/
def leave (c : RegionCache) (region : String) (id : LookupId) : RegionCache :=
  { c with queues := c.queues.insert region ((c.queue region).erase id) }

def holds (c : RegionCache) (region : String) (id : LookupId) : Bool :=
  (c.queue region).head? == some id

def store (c : RegionCache) (region : String) (table : RegionTable) : RegionCache :=
  { c with tables := c.tables.insert region table }

@[simp] theorem queue_join (c : RegionCache) (region : String) (id : LookupId) :
    (c.join region id).queue region = c.queue region ++ [id] := by
  simp [join, queue]

/-- The regions with a table that is not empty, in ascending order. -/
def regions (c : RegionCache) : List String :=
  Dict.keys (c.tables.filter fun entry => !entry.2.isEmpty)

def waitOperation : String := "vmcaps.populate"

def fetchOperation : String := "vmcaps.fetch"

/-- A fetch that failed: the failure is reported and the lock is free again. -/
def failFetch (c : RegionCache) (region : String) (id : LookupId) (e : GateError) :
    RegionCache × Lookup × List Note :=
  (c.leave region id, .done (.error e), [.emit (.fetchFailed region e.message)])

/-- One step of a lookup, or none if it has to wait or is done. -/
def step (c : RegionCache) (region : String) (id : LookupId) (interrupt : Option Interrupt)
    (answer : Option (Except StorageError (List Sku))) :
    Lookup → Option (RegionCache × Lookup × List Note)
  | .checking => match c.stored? region with
    | some table => some (c, .done (.ok table), [.count .cacheHits 1])
    | none => some (c, .missed, [.count .cacheMisses 1])
  | .missed => match interrupt with
    | some i => some (c, .done (.error (.ofInterrupt waitOperation i)), [])
    | none => some (c.join region id, .queued, [])
  | .queued => match guarded interrupt (if c.holds region id then some () else none) with
    | some (.error i) =>
      some (c.leave region id, .done (.error (.ofInterrupt waitOperation i)), [])
    | some (.ok ()) => some (c, .locked, [])
    | none => none
  | .locked => match c.stored? region with
    | some table => some (c.leave region id, .done (.ok table), [])
    | none => some (c, .fetching false, [.count .regionFetches 1])
  | .fetching called => match guarded interrupt (if called then answer else none) with
    | some (.error i) => some (c.failFetch region id (.ofInterrupt fetchOperation i))
    | some (.ok (.error e)) => some (c.failFetch region id (.ofStorage e))
    | some (.ok (.ok listing)) => some (c, .fetched listing, [])
    | none => if called then none else some (c, .fetching true, [])
  | .fetched listing =>
    let table := RegionTable.ofListing listing
    some ((c.store region table).leave region id, .done (.ok table),
      [.emit (.regionPopulated region table.length)])
  | .done _ => none

end RegionCache

end ClusterGate
