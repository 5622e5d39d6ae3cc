import ClusterGate.Store.Record
import ClusterGate.Store.FileTree
import ClusterGate.Error
import ClusterGate.Json.Reader
import ClusterGate.Json.Printer

/-!
# The store in files

The record of a kind and a name is the file `<root>/<kind>/<name>.json`. What such a file says about
its kind and name does not count: its place does.
-/

namespace ClusterGate.FileStore

def kindPath (root kind : String) : String := Path.join root kind

def recordPath (root kind name : String) : String := Path.join (kindPath root kind) (name ++ ".json")

def textOf (r : Record) : String := Json.pretty (.obj r.fields)

/-- The JSON of a file with the kind and the name of its place. -/
def placed (kind name : String) : Json → Json
  | .obj members => .obj (Dict.insert "name" (.str name) (Dict.insert "kind" (.str kind) members))
  | v => v

def decode (kind name : String) (content : List UInt8) : Except StorageError Record :=
  match (Json.ofBytes? content).bind fun v => Record.read? (Doc.ofValue (placed kind name v)) with
  | some r => .ok r
  | none => .error (.decode (kind ++ " " ++ name ++ ": not a record"))

def ioError (e : PathError) : StorageError := .io e.text

/-- Stores a record. Directories that are made for it stay even if it cannot be written. -/
def put (root : String) (t : FileTree) (r : Record) : FileTree × Except StorageError Unit :=
  match t.ensureDir (kindPath root r.kind) with
  | (t, .error e) => (t, .error (ioError e))
  | (t, .ok ()) =>
    match t.write (recordPath root r.kind r.name) (textOf r).toUTF8.toList with
    | .ok t => (t, .ok ())
    | .error e => (t, .error (ioError e))

/-- The name of the record in a file, if the file name is that of a record. -/
def recordName? (fileName : String) : Option String :=
  match fileName.toList.reverse with
  | 'n' :: 'o' :: 's' :: 'j' :: '.' :: stem =>
    if stem = [] then none else some (String.ofList stem.reverse)
  | _ => none

def load (root : String) (t : FileTree) (kind name : String) : Except StorageError Record :=
  match t.read (recordPath root kind name) with
  | .ok content => decode kind name content
  | .error e => .error (ioError e)

/-- The names of the records of a kind, in ascending order; a kind without a directory has none. -/
def recordNames (root : String) (t : FileTree) (kind : String) : Except StorageError (List String) :=
  match t.names (kindPath root kind) with
  | .ok names => .ok (sortedSet (names.filterMap recordName?))
  | .error .missing => .ok []
  | .error e => .error (ioError e)

/-- The records of a kind in ascending order of their names. -/
def list (root : String) (t : FileTree) (kind : String) : Except StorageError (List Record) := do
  (← recordNames root t kind).mapM (load root t kind)

def get (root : String) (t : FileTree) (kind name : String) : Except StorageError (Option Record) :=
  match t.read (recordPath root kind name) with
  | .ok content => (decode kind name content).map some
  | .error .missing => .ok none
  | .error e => .error (ioError e)

end ClusterGate.FileStore
