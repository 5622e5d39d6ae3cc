/-!
# Counters

Six counters of 64 bits; additions wrap.
-/

namespace ClusterGate

inductive Counter where
  | upgradesAllowed
  | upgradesDenied
  | cacheHits
  | cacheMisses
  | regionFetches
  | patchOps
deriving DecidableEq, Repr

structure Tally where
  upgradesAllowed : UInt64 := 0
  upgradesDenied : UInt64 := 0
  cacheHits : UInt64 := 0
  cacheMisses : UInt64 := 0
  regionFetches : UInt64 := 0
  patchOps : UInt64 := 0
deriving DecidableEq, Repr, Inhabited

namespace Tally

def get (t : Tally) : Counter → UInt64
  | .upgradesAllowed => t.upgradesAllowed
  | .upgradesDenied => t.upgradesDenied
  | .cacheHits => t.cacheHits
  | .cacheMisses => t.cacheMisses
  | .regionFetches => t.regionFetches
  | .patchOps => t.patchOps

def add (t : Tally) (n : Nat) : Counter → Tally
  | .upgradesAllowed => { t with upgradesAllowed := t.upgradesAllowed + UInt64.ofNat n }
  | .upgradesDenied => { t with upgradesDenied := t.upgradesDenied + UInt64.ofNat n }
  | .cacheHits => { t with cacheHits := t.cacheHits + UInt64.ofNat n }
  | .cacheMisses => { t with cacheMisses := t.cacheMisses + UInt64.ofNat n }
  | .regionFetches => { t with regionFetches := t.regionFetches + UInt64.ofNat n }
  | .patchOps => { t with patchOps := t.patchOps + UInt64.ofNat n }

def counts (t : Tally) : List Nat :=
  [t.upgradesAllowed, t.upgradesDenied, t.cacheHits, t.cacheMisses, t.regionFetches,
   t.patchOps].map UInt64.toNat

end Tally

def Counter.ofVerdict (allowed : Bool) : Counter :=
  if allowed then .upgradesAllowed else .upgradesDenied

end ClusterGate
