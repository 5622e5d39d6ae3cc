import ClusterGate.Json.Pointer
import ClusterGate.Json.Fields
import ClusterGate.Error
import ClusterGate.Telemetry.Event

/-!
# Patches

Operations that add, replace or remove the value at a pointer, and the operations that turn one
document into another.
-/

namespace ClusterGate.Patch

inductive Operation where
  | add (path : String) (value : Json)
  | replace (path : String) (value : Json)
  | remove (path : String)
deriving Repr

namespace Operation

def path : Operation → String
  | .add path _ | .replace path _ | .remove path => path

def name : Operation → String
  | .add .. => "add"
  | .replace .. => "replace"
  | .remove .. => "remove"

def fields : Operation → List (String × Json)
  | .add path value => [("op", .str "add"), ("path", .str path), ("value", value)]
  | .replace path value => [("op", .str "replace"), ("path", .str path), ("value", value)]
  | .remove path => [("op", .str "remove"), ("path", .str path)]

def encode (op : Operation) : Json := Json.object op.fields

/-- Reads the operation of a name from the members beside the name. -/
def withName? (name : String) (rest : Doc) : Option Operation :=
  match name with
  | "add" => do
    let s ← rest.slots? ["path", "value"]
    return .add (← s.required "path" Doc.text?) (← s.required "value" Doc.value?)
  | "replace" => do
    let s ← rest.slots? ["path", "value"]
    return .replace (← s.required "path" Doc.text?) (← s.required "value" Doc.value?)
  | "remove" => do
    let s ← rest.slots? ["path"]
    return .remove (← s.required "path" Doc.text?)
  | _ => none

def read? (d : Doc) : Option Operation := do
  let (tag, rest) ← d.tagged? "op"
  withName? (← tag.text?) rest

end Operation

/-- Removals of the elements from an index on, the last one first. -/
def removals (path : String) (first : Nat) : Nat → List Operation
  | 0 => []
  | n + 1 => .remove (path ++ "/" ++ toString (first + n)) :: removals path first n

def additions (path : String) (index : Nat) : List Json → List Operation
  | [] => []
  | v :: rest => .add (path ++ "/" ++ toString index) v :: additions path (index + 1) rest

mutual

def diffAt (path : String) : Json → Json → List Operation
  | .obj before, .obj after => diffMembers path before after
  | .arr before, .arr after => diffElements path 0 before after
  | before, after => if before.same after then [] else [.replace path after]
termination_by before after => sizeOf before + sizeOf after

def diffMembers (path : String) :
    List (String × Json) → List (String × Json) → List Operation
  | [], [] => []
  | (k, _) :: before, [] => .remove (Pointer.push path k) :: diffMembers path before []
  | [], (k, a) :: after => .add (Pointer.push path k) a :: diffMembers path [] after
  | (k, b) :: before, (l, a) :: after =>
    if k < l then .remove (Pointer.push path k) :: diffMembers path before ((l, a) :: after)
    else if k = l then diffAt (Pointer.push path k) b a ++ diffMembers path before after
    else .add (Pointer.push path l) a :: diffMembers path ((k, b) :: before) after
termination_by before after => sizeOf before + sizeOf after

/-- The operations on the elements of an array: common elements in their order, then the additions
at the end or the removals from the end. -/
def diffElements (path : String) (index : Nat) : List Json → List Json → List Operation
  | [], after => additions path index after
  | before, [] => removals path index before.length
  | b :: before, a :: after =>
    diffAt (path ++ "/" ++ toString index) b a ++ diffElements path (index + 1) before after
termination_by before after => sizeOf before + sizeOf after

end

def diff (before after : Json) : List Operation := diffAt "" before after

/-- What a computed patch leaves behind. -/
def diffNotes (ops : List Operation) : List Note :=
  [.count .patchOps ops.length, .emit (.patchesGenerated ops.length "")]

def isUnder (pathPrefix : String) (op : Operation) : Bool :=
  pathPrefix.toList.isPrefixOf op.path.toList

/-- Drops the operations under a path prefix. -/
def without (pathPrefix : String) (ops : List Operation) : List Operation :=
  ops.filter fun op => !isUnder pathPrefix op

/-- What dropping operations leaves behind: nothing if none was dropped. -/
def withoutNotes (pathPrefix : String) (ops : List Operation) : List Note :=
  let kept := (without pathPrefix ops).length
  if kept = ops.length then [] else [.emit (.patchesGenerated kept pathPrefix)]

/-- Drops the operations under each of several path prefixes, one prefix after the other. -/
def withoutAll (prefixes : List String) (ops : List Operation) : List Operation :=
  prefixes.foldl (fun ops p => without p ops) ops

def encode (ops : List Operation) : Json := .arr (ops.map Operation.encode)

/-- Reads an operation of standard JSON Patch, whose path has to be a pointer. -/
def Operation.readStandard? (d : Doc) : Option Operation :=
  (read? d).filter fun op => Pointer.isPointer op.path

/-- The patch as standard JSON Patch, read from its JSON; a path that is no pointer is refused. -/
def standard (ops : List Operation) : Except GateError (List Operation) :=
  match Doc.list? Operation.readStandard? (Doc.ofValue (encode ops)) with
  | some patch => .ok patch
  | none => .error (.serialization "a path is not a pointer")

end ClusterGate.Patch
