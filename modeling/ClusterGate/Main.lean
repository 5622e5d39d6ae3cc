import ClusterGate.Cli.Run

/-!
# The program

Hands arguments, environment and files to a run and prints what comes of it. The program itself makes
no connections, so an inventory never answers it.
-/

namespace ClusterGate

def loadEnvironment : IO Inventory.Environment := do
  let names := Cli.catalogVariable :: Inventory.Config.variableNames
  let found ← names.filterMapM fun name => do
    return (← IO.getEnv name).map fun value => (name, value)
  return Dict.ofList found

def loadFile (t : FileTree) (path : String) : IO FileTree := do
  try
    let content ← IO.FS.readBinFile path
    let t := match Path.parent? path with
      | some above => (t.ensureDir above).1
      | none => t
    match t.write path content.toList with
    | .ok t => return t
    | .error _ => return t
  catch _ => return t

def loadKind (t : FileTree) (root kind : String) : IO FileTree := do
  try
    let here ← IO.currentDir
    let dir := here.join (FileStore.kindPath root kind)
    let names := (← dir.readDir).toList.map fun entry => entry.fileName
    let t := (t.ensureDir (FileStore.kindPath root kind)).1
    (names.filterMap FileStore.recordName?).foldlM
      (fun t name => loadFile t (FileStore.recordPath root kind name)) t
  catch _ => return t

def loadFiles (s : Cli.Settings) (command : Cli.Command) : IO FileTree := do
  let here := Path.steps (← IO.currentDir).toString
  let t := (({} : FileTree).ensureDir ("/" ++ "/".intercalate here)).1
  let t := { t with here := here }
  match command with
  | .diff before after _ => loadFile (← loadFile t before) after
  | .capabilities .. => return t
  | _ => loadKind t s.catalogDir releaseKind

/-- The clock of the machine: it counts seconds in 63 bits. What a command reads is in memory before the
command begins, so no deadline passes on the way. -/
def loadClock : IO Cli.Clock := do
  let counted := (← IO.monoMsNow) / 1000
  return { range := Nat.pow 2 63 - 1 - counted, expires := fun _ _ _ => false }

end ClusterGate

open ClusterGate in
def main (args : List String) : IO UInt32 := do
  let env ← loadEnvironment
  let files ← match Cli.parse env args with
    | .ok (s, command) => loadFiles s command
    | .error _ => pure {}
  let ending := (Cli.run ⟨files, env, ⟨none, [], []⟩, ← loadClock⟩ args).1
  let (output, error) := match ending with
    | .exits outcome => (outcome.output, outcome.error)
    | .aborts => ("", some "overflow when adding duration to instant")
  (← IO.getStdout).putStr output
  match error with
  | some e => (← IO.getStderr).putStrLn e
  | none => pure ()
  return ending.status.toUInt32
