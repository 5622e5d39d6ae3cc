import ClusterGate.Cli.Arguments
import ClusterGate.Inventory.Config

/-!
# Commands

The commands of the program and its settings, and how a command line names them. Settings may be
given to any command on the way; the last command that is given one decides.
-/

namespace ClusterGate.Cli

/-- What is asked about an instance type. -/
inductive CapabilityQuestion where
  | memory
  | cpus
  | has (capability : String)
  | all
deriving DecidableEq, Repr

inductive Command where
  | upgrade (old new : String)
  | listReleases
  | components (release : String)
  | diff (before after : String) (skipped : List String)
  | capabilities (region instanceType : String) (question : CapabilityQuestion)
deriving DecidableEq, Repr

structure Settings where
  catalogDir : String
  timeoutSeconds : Nat
deriving DecidableEq, Repr

def catalogVariable : String := "ADMISSION_CATALOG_DIR"

def commonOptions : List OptionRule := [
  { name := "verbose", short := some 'v' },
  { name := "json" },
  { name := "catalog-dir", value := some .path },
  { name := "timeout-secs", value := some .number }]

def topGrammar : Grammar := {
  options := commonOptions
  commands := ["upgrade", "catalog", "diff", "vm-caps"]
  tellsVersion := true }

def plainGrammar (options : List OptionRule) (operands : List ValueKind) : Grammar :=
  { options := commonOptions ++ options, operands := operands }

def upgradeGrammar : Grammar := plainGrammar
  [{ name := "from", value := some .text }, { name := "to", value := some .text }] []

def diffGrammar : Grammar := plainGrammar
  [{ name := "skip-prefix", value := some .text, repeats := true }] [.path, .path]

def catalogGrammar : Grammar :=
  { options := commonOptions, commands := ["list", "components"] }

def capabilityGrammar : Grammar := {
  options := commonOptions ++
    [{ name := "region", value := some .text }, { name := "instance-type", value := some .text }]
  commands := ["memory", "cpus", "has", "show"] }

def readLevel (g : Grammar) (args : List String) : Except Stop Given := g.read {} args

/-- A command line that was read: all that was given on the way to its command, and the command. -/
structure Line where
  path : List (Grammar × Given)
  command : Option Command

def readLeaf (g : Grammar) (args : List String) (above : List (Grammar × Given))
    (command : Given → Option Command) : Except Stop Line := do
  let found ← readLevel g args
  return ⟨above ++ [(g, found)], command found⟩

def readCatalog (args : List String) (above : List (Grammar × Given)) : Except Stop Line := do
  let found ← readLevel catalogGrammar args
  let above := above ++ [(catalogGrammar, found)]
  match found.command with
  | some ("list", args) => readLeaf (plainGrammar [] []) args above fun _ => some .listReleases
  | some ("components", args) =>
    readLeaf (plainGrammar [] [.text]) args above fun g => g.operands.head?.map .components
  | _ => .error .misuse

def readCapabilities (args : List String) (above : List (Grammar × Given)) :
    Except Stop Line := do
  let found ← readLevel capabilityGrammar args
  let above := above ++ [(capabilityGrammar, found)]
  let ask (question : Option CapabilityQuestion) : Option Command := do
    return .capabilities (← found.value? "region") (← found.value? "instance-type") (← question)
  match found.command with
  | some ("memory", args) => readLeaf (plainGrammar [] []) args above fun _ => ask (some .memory)
  | some ("cpus", args) => readLeaf (plainGrammar [] []) args above fun _ => ask (some .cpus)
  | some ("has", args) =>
    readLeaf (plainGrammar [] [.text]) args above fun g => ask (g.operands.head?.map .has)
  | some ("show", args) => readLeaf (plainGrammar [] []) args above fun _ => ask (some .all)
  | _ => .error .misuse

def readLine (args : List String) : Except Stop Line := do
  let found ← readLevel topGrammar args
  let above := [(topGrammar, found)]
  match found.command with
  | some ("upgrade", args) => readLeaf upgradeGrammar args above fun g => do
    return .upgrade (← g.value? "from") (← g.value? "to")
  | some ("catalog", args) => readCatalog args above
  | some ("diff", args) => readLeaf diffGrammar args above fun g =>
    match g.operands with
    | [before, after] => some (.diff before after (g.values "skip-prefix"))
    | _ => none
  | some ("vm-caps", args) => readCapabilities args above
  | _ => .error .misuse

/-- The last value given to an option on the way to a command. -/
def lastValue? (path : List (Grammar × Given)) (name : String) : Option String :=
  (path.filterMap fun level => level.2.value? name).getLast?

/-- The settings of a run. A variable stands in for the option wherever that is not given, and has
to be a path there. -/
def settings (env : Inventory.Environment) (path : List (Grammar × Given)) : Except Stop Settings := do
  let standIn := env.get? catalogVariable
  let fits := match standIn with
    | some value => ValueKind.path.admits value || path.all fun level => level.2.has "catalog-dir"
    | none => true
  if !fits then .error .misuse
  else return {
    catalogDir := (lastValue? path "catalog-dir").getD (standIn.getD ".")
    timeoutSeconds := ((lastValue? path "timeout-secs").bind Text.word?).getD 30 }

def parse (env : Inventory.Environment) (args : List String) : Except Stop (Settings × Command) := do
  let given ← readLine args
  let s ← settings env given.path
  match given.command with
  | some command =>
    if given.path.all fun level => level.1.isComplete level.2 then return (s, command)
    else .error .misuse
  | none => .error .misuse

end ClusterGate.Cli
