import ClusterGate.Catalog.Release

/-!
# Upgrade decisions

The rules are looked at in a fixed order: same release, unknown release, ignored release, downgrade,
alpha boundary, same line, and last whether a line of releases would be skipped.
-/

namespace ClusterGate.Upgrade

/-- A decision on the upgrade from one version to another. -/
structure Decision where
  old : Version
  new : Version
  allowed : Bool
  reason : Reason
deriving DecidableEq, Repr

namespace Decision

def message (d : Decision) : String :=
  match d.reason with
  | .equal => "release " ++ d.new.text ++ " is unchanged"
  | .success => "upgrade from " ++ d.old.text ++ " to " ++ d.new.text ++ " is allowed"
  | .releaseNotFound => "release " ++ d.new.text ++ " not found"
  | .downgrade => "downgrading from " ++ d.old.text ++ " to " ++ d.new.text ++ " is not allowed"
  | .alphaBoundary =>
    "upgrading from " ++ d.old.text ++ " to " ++ d.new.text ++
      " crosses an alpha release boundary"
  | .releaseSkipped skipped =>
    "upgrading from " ++ d.old.text ++ " to " ++ d.new.text ++ " skips release " ++ skipped.text

def result (d : Decision) : Except GateError Unit :=
  if d.allowed then .ok () else .error (.upgradeDenied d.reason d.message)

/-- The members of a decision, those of its reason among them. -/
def fields (d : Decision) : List (String × Json) :=
  [("old", d.old.encode), ("new", d.new.encode), ("allowed", .bool d.allowed)] ++ d.reason.fields

def encode (d : Decision) : Json := Json.object d.fields

/-- The tag of a reason inside a decision: its text or its number. -/
def tag? : Doc → Option String
  | .str s => some s
  | .int n => if 0 ≤ n then Reason.tags[n.toNat]? else none
  | _ => none

/-- Reads a decision, from an object alone. What is not one of its own members belongs to the
reason. -/
def read? (d : Doc) : Option Decision :=
  match d with
  | .obj members => do
    let own := ["old", "new", "allowed"]
    let s ← d.slots? own
    let old ← s.required "old" Version.read?
    let new ← s.required "new" Version.read?
    let allowed ← s.required "allowed" Doc.bool?
    let (tag, rest) ← (Doc.obj (members.filter fun m => !own.contains m.1)).tagged? "reason"
    return ⟨old, new, allowed, ← Reason.withTag? (← tag? tag) rest⟩
  | _ => none

end Decision

/-- The earliest of the given versions; of equal ones the first. -/
def earliest? : List Version → Option Version
  | [] => none
  | v :: rest => match earliest? rest with
    | none => some v
    | some w => if w.before v then some w else some v

/-- Whether an upgrade from `old` to `new` would pass over a release on a line of its own. -/
def passesOver (old new : Version) (r : Release) : Bool :=
  !r.ignored && !r.version.isAlpha && old.before r.version && r.version.before new &&
  !r.version.sameLine old && !r.version.sameLine new

def reasonFor (old new : Version) (catalog : List Release) : Reason :=
  if old.same new then .equal
  else if !catalog.any (fun r => r.version.same new) then .releaseNotFound
  else if catalog.any (fun r => (r.version.same old || r.version.same new) && r.ignored)
  then .success
  else if new.before old then .downgrade
  else if old.isAlpha != new.isAlpha then .alphaBoundary
  else if old.sameLine new then .success
  else match earliest? ((catalog.filter (passesOver old new)).map Release.version) with
    | some skipped => .releaseSkipped skipped
    | none => .success

def decide (old new : Version) (catalog : List Release) : Decision :=
  let reason := reasonFor old new catalog
  ⟨old, new, reason.isAllowed, reason⟩

end ClusterGate.Upgrade
