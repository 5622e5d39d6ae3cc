import ClusterGate.Dict
import ClusterGate.Text.Basic

/-!
# File trees

Directories and files below a top directory, and the paths that lead to them. There are no links, so
a place is the list of names that leads to it from the top.
-/

namespace ClusterGate

inductive FileNode where
  | file (content : List UInt8)
  | dir (entries : List (String × FileNode))
deriving Repr

inductive PathError where
  /-- Something on the way, or at its end, is not there. -/
  | missing
  /-- There is something at the end of the way already. -/
  | occupied
  | notDirectory
  | isDirectory
  | tooLong
  /-- No path at all. -/
  | invalid
deriving DecidableEq, Repr

def PathError.text : PathError → String
  | .missing => "no such file or directory"
  | .occupied => "file exists"
  | .notDirectory => "not a directory"
  | .isDirectory => "is a directory"
  | .tooLong => "file name too long"
  | .invalid => "file name contained an unexpected NUL byte"

/-- The names that lead to a file or directory from the top. -/
abbrev Place := List String

namespace FileNode

instance : Inhabited FileNode := ⟨.dir []⟩

def isDir : FileNode → Bool
  | .dir _ => true
  | .file _ => false

def at? : FileNode → Place → Option FileNode
  | n, [] => some n
  | .dir entries, name :: rest => (Dict.get? name entries).bind fun n => n.at? rest
  | .file _, _ :: _ => none

/-- Puts a node at a place whose directory is there. -/
def put : FileNode → Place → FileNode → FileNode
  | _, [], new => new
  | .dir entries, name :: rest, new =>
    .dir (Dict.insert name (put ((Dict.get? name entries).getD (.dir [])) rest new) entries)
  | n, _, _ => n

def erase : FileNode → Place → FileNode
  | .dir entries, [name] => .dir (Dict.erase name entries)
  | .dir entries, name :: rest =>
    match Dict.get? name entries with
    | some n => .dir (Dict.insert name (n.erase rest) entries)
    | none => .dir entries
  | n, _ => n

end FileNode

/-- A tree and the directory in which relative paths begin. -/
structure FileTree where
  top : FileNode := .dir []
  here : Place := []
deriving Repr, Inhabited

/-! ### Paths -/

namespace Path

def maxName : Nat := 255

/-- A path has less bytes than this. -/
def maxPath : Nat := 4096

def isAbsolute (path : String) : Bool := path.toList.head? == some '/'

/-- A path seen from another one; an absolute path stands for itself. -/
def join (base path : String) : String :=
  if isAbsolute path then path
  else if base = "" ∨ base.toList.getLast? = some '/' then base ++ path
  else base ++ "/" ++ path

/-- The steps of a path: names, `.` and `..`. -/
def steps (path : String) : List String :=
  ((Text.pieces '/' path.toList).filter (· ≠ [])).map String.ofList

/-- Whether a path says that a directory is at its end. -/
def namesDirectory (path : String) : Bool := path.toList.getLast? == some '/'

/-- The path of the directory above, if there is one, as written: steps that go nowhere are dropped,
and steps up are not followed. -/
def parent? (path : String) : Option String :=
  let given := steps path
  let kept := if isAbsolute path then given.filter (· ≠ ".")
    else given.take 1 ++ (given.drop 1).filter (· ≠ ".")
  if kept = [] then none
  else some ((if isAbsolute path then "/" else "") ++ "/".intercalate kept.dropLast)

end Path

namespace FileTree

def checkPath (path : String) : Except PathError Unit :=
  if path.toList.contains '\x00' then .error .invalid
  else if path = "" then .error .missing
  else if Path.maxPath ≤ path.utf8ByteSize then .error .tooLong
  else .ok ()

def origin (t : FileTree) (path : String) : Place := if Path.isAbsolute path then [] else t.here

/-- One step from a place, which has to be a directory. -/
def walkStep (t : FileTree) (here : Place) (step : String) : Except PathError Place :=
  match t.top.at? here with
  | none => .error .missing
  | some (.file _) => .error .notDirectory
  | some (.dir entries) =>
    if step = "." then .ok here
    else if step = ".." then .ok here.dropLast
    else if Path.maxName < step.utf8ByteSize then .error .tooLong
    else match Dict.get? step entries with
      | some _ => .ok (here ++ [step])
      | none => .error .missing

def walk (t : FileTree) (here : Place) (steps : List String) : Except PathError Place :=
  steps.foldlM t.walkStep here

def locate (t : FileTree) (path : String) : Except PathError Place := do
  checkPath path
  let place ← t.walk (t.origin path) (Path.steps path)
  if Path.namesDirectory path then t.walkStep place "." else .ok place

/-- The directory and the name of a path whose end need not be there; a path that ends in a step
without a name has no name. -/
def locateNew (t : FileTree) (path : String) : Except PathError (Place × Option String) := do
  checkPath path
  let steps := Path.steps path
  let dir ← t.walk (t.origin path) steps.dropLast
  let dir ← t.walkStep dir "."
  match steps.getLast? with
  | none => return (dir, none)
  | some last =>
    if last = "." ∨ last = ".." then return (dir, none)
    else if Path.maxName < last.utf8ByteSize then .error .tooLong
    else return (dir, some last)

def find (t : FileTree) (path : String) : Except PathError FileNode := do
  match t.top.at? (← t.locate path) with
  | some n => .ok n
  | none => .error .missing

def isDir (t : FileTree) (path : String) : Bool :=
  match t.find path with
  | .ok n => n.isDir
  | .error _ => false

/-! ### Reading and writing -/

def read (t : FileTree) (path : String) : Except PathError (List UInt8) := do
  match ← t.find path with
  | .file content => .ok content
  | .dir _ => .error .isDirectory

def names (t : FileTree) (path : String) : Except PathError (List String) := do
  match ← t.find path with
  | .dir entries => .ok (Dict.keys entries)
  | .file _ => .error .notDirectory

/-- Writes a file anew; its directory has to be there. -/
def write (t : FileTree) (path : String) (content : List UInt8) : Except PathError FileTree := do
  match ← t.locateNew path with
  | (_, none) => .error .isDirectory
  | (dir, some name) =>
    if Path.namesDirectory path then .error .isDirectory
    else match t.top.at? (dir ++ [name]) with
      | some (.dir _) => .error .isDirectory
      | _ => .ok { t with top := t.top.put (dir ++ [name]) (.file content) }

def makeDir (t : FileTree) (path : String) : Except PathError FileTree := do
  match ← t.locateNew path with
  | (_, none) => .error .occupied
  | (dir, some name) =>
    match t.top.at? (dir ++ [name]) with
    | some _ => .error .occupied
    | none => .ok { t with top := t.top.put (dir ++ [name]) (.dir []) }

/-- Makes a directory; one that is there already will do. -/
def makeDirOnce (t : FileTree) (path : String) : FileTree × Except PathError Unit :=
  match t.makeDir path with
  | .ok t => (t, .ok ())
  | .error e => (t, if t.isDir path then .ok () else .error e)

/-- Makes a directory, after the directories above it if the way to it is not there. What was made
stays even if a later part fails. -/
def makeDirs : Nat → FileTree → String → FileTree × Except PathError Unit
  | 0, t, _ => (t, .error .missing)
  | fuel + 1, t, path =>
    if path = "" then (t, .ok ())
    else match t.makeDir path with
      | .error .missing =>
        match Path.parent? path with
        | none => (t, .error .missing)
        | some above =>
          match makeDirs fuel t above with
          | (t, .ok ()) => t.makeDirOnce path
          | failed => failed
      | _ => t.makeDirOnce path

/-- Makes a directory and all directories above it; each of these has a shorter path. -/
def ensureDir (t : FileTree) (path : String) : FileTree × Except PathError Unit :=
  makeDirs (path.length + 1) t path

/-- Takes out a file, or a directory with all it holds. -/
def delete (t : FileTree) (path : String) : Except PathError FileTree := do
  return { t with top := t.top.erase (← t.locate path) }

end FileTree

end ClusterGate
