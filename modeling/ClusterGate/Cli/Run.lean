import ClusterGate.Catalog.Queries
import ClusterGate.Cli.Command
import ClusterGate.Direct
import ClusterGate.Inventory.Listing
import ClusterGate.Patch.Basic
import ClusterGate.Sku.Queries
import ClusterGate.Store.Files

/-!
# Running a command

A run reads files and the environment, may list the inventory, and ends with an exit status, its
output and perhaps an error. Nothing is printed by a run that fails. A run whose deadline lies beyond
what the clock can count is aborted before its command begins.
-/

namespace ClusterGate.Cli

structure Outcome where
  status : Nat
  output : String := ""
  /-- The error, told on its own. -/
  error : Option String := none
deriving DecidableEq, Repr

/-- How a run ends: with an outcome, or torn down before its command begins. -/
inductive Ending where
  | exits (outcome : Outcome)
  | aborts
deriving DecidableEq, Repr

def Ending.status : Ending → Nat
  | .exits outcome => outcome.status
  | .aborts => 101

/-- What a run sees of the clock. -/
structure Clock where
  /-- The seconds that it can still count. -/
  range : Nat
  /-- Whether a deadline so many seconds after the start has passed when an operation is about to make
  its call, and whether it passes before the call is answered. -/
  expires : Nat → String → Bool → Bool

structure Surroundings where
  files : FileTree
  environment : Inventory.Environment
  server : Inventory.Server
  clock : Clock

abbrev Attempt (α : Type) := Except String α

def failedStatus : Nat := 1

def deniedStatus : Nat := 2

def misuseStatus : Nat := 2

def line (text : String) : String := text ++ "\n"

def shown (v : Json) : String := line v.pretty

/-- What interrupts an operation of a run. Nobody cancels one, so this can only be its deadline. -/
def Clock.interrupt? (clock : Clock) (s : Settings) (operation : String) (called : Bool) :
    Option Interrupt :=
  if clock.expires s.timeoutSeconds operation called then some .expired else none

def catalogIn (s : Settings) (clock : Clock) (files : FileTree) : Direct.Surroundings Unit where
  interrupt := clock.interrupt? s
  records := FileStore.list s.catalogDir files releaseKind
  record := FileStore.get s.catalogDir files releaseKind
  listing _ k := (.ok [], k)

def withCatalog {α : Type} (s : Settings) (clock : Clock) (files : FileTree) (e : Engine α) :
    Except GateError α :=
  (Direct.run (catalogIn s clock files) e { inventory := () }).1

def withInventory {α : Type} (s : Settings) (clock : Clock) (c : Inventory.Config)
    (server : Inventory.Server) (e : Engine α) : Except GateError α × Inventory.Server :=
  let given : Direct.Surroundings Inventory.Server := {
    interrupt := clock.interrupt? s
    records := .ok []
    record := fun _ => .ok none
    listing := fun region server => server.list c region (regionFilter region) }
  let (result, kept) := Direct.run given e { inventory := server }
  (result, kept.inventory)

/-! ### Commands -/

def report (d : Upgrade.Decision) : Json :=
  Json.object (d.fields ++ [("message", .str d.message)])

def upgradeOutcome (old new : String) : Except GateError Upgrade.Decision → Attempt Outcome
  | .ok d => .ok ⟨if d.allowed then 0 else deniedStatus, shown (report d), none⟩
  | .error _ => .error ("failed to validate upgrade " ++ old ++ " -> " ++ new)

def runUpgrade (s : Settings) (clock : Clock) (files : FileTree) (old new : String) :
    Attempt Outcome :=
  upgradeOutcome old new (withCatalog s clock files (Upgrade.reviewNames old new))

def releaseLine (r : Release) : String :=
  let marks := (if r.ignored then ["ignored"] else []) ++
    (if r.version.isAlpha then ["alpha"] else [])
  line (if marks.isEmpty then r.rawName
    else r.rawName ++ " (" ++ ", ".intercalate marks ++ ")")

/-- Lists the releases, oldest first; equal versions stay in the order of their names. -/
def runListing (s : Settings) (clock : Clock) (files : FileTree) : Attempt Outcome :=
  match withCatalog s clock files Catalog.releases with
  | .ok releases =>
    let sorted := releases.mergeSort fun a b => !b.version.before a.version
    .ok ⟨0, String.join (sorted.map releaseLine), none⟩
  | .error _ => .error "failed to read release catalog"

def runComponents (s : Settings) (clock : Clock) (files : FileTree) (release : String) :
    Attempt Outcome :=
  match withCatalog s clock files (Catalog.components release) with
  | .ok components => .ok ⟨0, shown (Json.textMap components), none⟩
  | .error _ => .error ("failed to read components of release " ++ release)

def readFile (files : FileTree) (path : String) : Attempt (List UInt8) :=
  match files.read path with
  | .ok content => .ok content
  | .error _ => .error ("failed to read " ++ path)

def readDocument (path : String) (content : List UInt8) : Attempt Json :=
  match Json.ofBytes? content with
  | some v => .ok v
  | none => .error (path ++ " is not valid JSON")

/-- Shows the patch between two documents. Both files are read before either is understood. -/
def runDiff (files : FileTree) (before after : String) (skipped : List String) :
    Attempt Outcome := do
  let raw ← readFile files before
  let wanted ← readDocument after (← readFile files after)
  let given ← readDocument before raw
  let ops := Patch.withoutAll skipped (Patch.diff given wanted)
  return ⟨0, shown (.arr (ops.map fun op => .obj op.fields)), none⟩

/-- The program that answers a question, and shows the answer. -/
def CapabilityQuestion.engine (region instanceType : String) : CapabilityQuestion → Engine String
  | .memory => return shown (.int (← Sku.memoryOf region instanceType))
  | .cpus => return shown (.int (← Sku.cpusOf region instanceType))
  | .has capability => return shown (.bool (← Sku.hasCapability region instanceType capability))
  | .all => return shown (.obj (← Sku.recordOf region instanceType).fields)

def runCapabilities (s : Settings) (given : Surroundings) (region instanceType : String)
    (question : CapabilityQuestion) : Attempt Outcome × Inventory.Server :=
  match Inventory.Config.ofEnvironment given.environment with
  | .error _ => (.error "failed to configure inventory client", given.server)
  | .ok c =>
    let (result, server) :=
      withInventory s given.clock c given.server (question.engine region instanceType)
    match result with
    | .ok output => (.ok ⟨0, output, none⟩, server)
    | .error e => (.error e.message, server)

def runCommand (s : Settings) (given : Surroundings) :
    Command → Attempt Outcome × Inventory.Server
  | .upgrade old new => (runUpgrade s given.clock given.files old new, given.server)
  | .listReleases => (runListing s given.clock given.files, given.server)
  | .components release => (runComponents s given.clock given.files release, given.server)
  | .diff before after skipped => (runDiff given.files before after skipped, given.server)
  | .capabilities region instanceType question =>
    runCapabilities s given region instanceType question

def failure (wording : String) : Outcome := ⟨failedStatus, "", some ("Error: " ++ wording)⟩

def Outcome.ofAttempt : Attempt Outcome → Outcome
  | .ok outcome => outcome
  | .error wording => failure wording

def versionLine : String := line ("admission " ++ programVersion)

def usageLine : String := line
  "usage: admission [options] upgrade | catalog list | catalog components | diff | vm-caps"

/-- Runs the program. The deadline is set before the command begins, whether it has use for one or
not. -/
def run (given : Surroundings) (args : List String) : Ending × Inventory.Server :=
  match parse given.environment args with
  | .error .misuse => (.exits ⟨misuseStatus, "", none⟩, given.server)
  | .error .version => (.exits ⟨0, versionLine, none⟩, given.server)
  | .error .help => (.exits ⟨0, usageLine, none⟩, given.server)
  | .ok (s, command) =>
    if given.clock.range < s.timeoutSeconds then (.aborts, given.server)
    else
      let (attempt, server) := runCommand s given command
      (.exits (.ofAttempt attempt), server)

end ClusterGate.Cli
