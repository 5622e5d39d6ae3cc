import ClusterGate.Engine
import ClusterGate.Upgrade.Decision

/-!
# Catalog queries and upgrade reviews

The releases of the catalog, the components of one release, and the decision on an upgrade as a whole:
it is made on the complete catalog or not at all.
-/

namespace ClusterGate.Catalog

/-- The releases in the order of the store; a record that lists no version ends the query. -/
def releases : Engine (List Release) := do
  let records ← Engine.query .releases
  Engine.ofExcept (records.mapM Release.ofRecord)

def requested (name : String) : Except GateError Version :=
  match Version.parse name with
  | .ok v => .ok v
  | .error e => .error (.invalidRequest e.message)

/-- The components of a release, however its version is spelled. -/
def components (release : String) : Engine Components := do
  let v ← Engine.ofExcept (requested release)
  Engine.query (.components v.releaseName)

def contains (release component : String) : Engine Bool :=
  return (← components release).ships component

end ClusterGate.Catalog

namespace ClusterGate.Upgrade

/-- What a decision leaves behind. -/
def decisionNotes (d : Decision) : List Note :=
  [.count (Counter.ofVerdict d.allowed) 1,
   .emit (.upgradeDecided d.old.text d.new.text d.allowed d.reason.tag)]

/-- The decision on an upgrade; the catalog is read unless the versions are the same release. -/
def review (old new : Version) : Engine Decision := do
  let catalog ← if old.same new then pure [] else Catalog.releases
  let d := decide old new catalog
  Engine.notes (decisionNotes d)
  return d

def reviewNames (old new : String) : Engine Decision := do
  let old ← Engine.ofExcept (Catalog.requested old)
  let new ← Engine.ofExcept (Catalog.requested new)
  review old new

end ClusterGate.Upgrade
