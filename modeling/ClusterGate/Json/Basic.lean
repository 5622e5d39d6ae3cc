import ClusterGate.Dict
import ClusterGate.Json.Double

/-!
# JSON values

Whole numbers and doubles are different numbers, whatever they denote. The members of an object are
a dictionary; `Json.Ordered` says so at every depth.
-/

namespace ClusterGate

inductive Json where
  | null
  | bool (b : Bool)
  | int (n : Int)
  | double (d : Double)
  | str (s : String)
  | arr (elements : List Json)
  | obj (members : List (String × Json))
deriving Repr, Inhabited

namespace Json

mutual

/-- Equality of values: zero equals minus zero, a whole number never equals a double. -/
def same : Json → Json → Bool
  | .null, .null => true
  | .bool a, .bool b => a == b
  | .int a, .int b => a == b
  | .double a, .double b => a.same b
  | .str a, .str b => a == b
  | .arr a, .arr b => sameElements a b
  | .obj a, .obj b => sameMembers a b
  | _, _ => false

def sameElements : List Json → List Json → Bool
  | [], [] => true
  | a :: as, b :: bs => same a b && sameElements as bs
  | _, _ => false

def sameMembers : List (String × Json) → List (String × Json) → Bool
  | [], [] => true
  | (k, a) :: as, (l, b) :: bs => k == l && same a b && sameMembers as bs
  | _, _ => false

end

mutual

/-- The keys of every object strictly ascend. -/
def Ordered : Json → Prop
  | .arr elements => OrderedElements elements
  | .obj members => Dict.Sorted members ∧ OrderedMembers members
  | _ => True

def OrderedElements : List Json → Prop
  | [] => True
  | v :: rest => Ordered v ∧ OrderedElements rest

def OrderedMembers : List (String × Json) → Prop
  | [] => True
  | (_, v) :: rest => Ordered v ∧ OrderedMembers rest

end

def member? (key : String) : Json → Option Json
  | .obj members => Dict.get? key members
  | _ => none

def text? : Json → Option String
  | .str s => some s
  | _ => none

/-- An object from entries in any order; of several entries under one key the last one stays. -/
def object (entries : List (String × Json)) : Json := .obj (Dict.ofList entries)

def texts (ts : List String) : Json := .arr (ts.map .str)

def textMap (d : Dict String) : Json := .obj (d.map fun entry => (entry.1, .str entry.2))

end Json

end ClusterGate
