import ClusterGate.Json.Basic
import ClusterGate.Telemetry.Tally

/-!
# Events

What the engines report, each event inside the requests that were open at the time. A note is what
an engine leaves behind at one point: an addition to a counter, or an event.
-/

namespace ClusterGate

def logVariable : String := "ADMISSION_LOG"

inductive Event where
  | upgradeDecided (old new : String) (allowed : Bool) (reason : String)
  | regionPopulated (region : String) (skus : Nat)
  | fetchFailed (region error : String)
  | patchesGenerated (count : Nat) (skippedPrefix : String)
  | flushed (tally : Tally)
deriving DecidableEq, Repr

def Event.level : Event → String
  | .fetchFailed .. => "WARN"
  | _ => "INFO"

def Event.fields : Event → List (String × Json)
  | .upgradeDecided old new allowed reason =>
    [("event", .str "upgrade.decided"), ("old", .str old), ("new", .str new),
     ("allowed", .bool allowed), ("reason", .str reason)]
  | .regionPopulated region skus =>
    [("event", .str "vmcaps.region_populated"), ("region", .str region), ("sku_count", .int skus)]
  | .fetchFailed region error =>
    [("event", .str "vmcaps.fetch_failed"), ("region", .str region), ("error", .str error)]
  | .patchesGenerated count skippedPrefix =>
    [("event", .str "patch.generated"), ("op_count", .int count),
     ("skipped_prefix", .str skippedPrefix)]
  | .flushed t =>
    [("metric", .str "flush"), ("upgrades_allowed", .int t.upgradesAllowed.toNat),
     ("upgrades_denied", .int t.upgradesDenied.toNat), ("cache_hits", .int t.cacheHits.toNat),
     ("cache_misses", .int t.cacheMisses.toNat), ("region_fetches", .int t.regionFetches.toNat),
     ("patch_ops_emitted", .int t.patchOps.toNat)]

structure Span where
  uid : String
  kind : String
deriving DecidableEq, Repr

def Span.encode (s : Span) : Json :=
  Json.object [("name", .str "admission.request"), ("uid", .str s.uid), ("kind", .str s.kind)]

/-- An event and the requests around it, outermost first. -/
structure Entry where
  event : Event
  spans : List Span
deriving DecidableEq, Repr

def Entry.encode (e : Entry) : Json :=
  let spans := if e.spans.isEmpty then [] else [("spans", Json.arr (e.spans.map Span.encode))]
  Json.object (e.event.fields ++ ("level", .str e.event.level) :: spans)

/-- What an engine leaves behind. -/
inductive Note where
  | count (counter : Counter) (n : Nat)
  | emit (event : Event)
deriving DecidableEq, Repr

/-- Counters, open requests and reported events. -/
structure Ledger where
  tally : Tally := {}
  /-- Open requests, innermost first. -/
  spans : List Span := []
  entries : List Entry := []
deriving Repr, Inhabited

namespace Ledger

def note (l : Ledger) : Note → Ledger
  | .count counter n => { l with tally := l.tally.add n counter }
  | .emit event => { l with entries := l.entries ++ [⟨event, l.spans.reverse⟩] }

def notes (l : Ledger) (ns : List Note) : Ledger := ns.foldl note l

def enter (l : Ledger) (s : Span) : Ledger := { l with spans := s :: l.spans }

def leave (l : Ledger) : Ledger := { l with spans := l.spans.tail }

def flush (l : Ledger) : Ledger := l.note (.emit (.flushed l.tally))

def reset (l : Ledger) : Ledger := { l with tally := {} }

end Ledger

end ClusterGate
