import ClusterGate.Json.Basic

/-!
# JSON as written

The tree of a JSON text before its parts are judged: members stand in the order written, with
repeated keys, and a part that is well formed but has no value is kept as unreadable. Such parts are
numbers past the greatest double, strings with half a surrogate pair, and arrays and objects nested
too deep. A reader that skips a part never judges it.
-/

namespace ClusterGate

/-- A JSON text as a tree. -/
inductive Doc where
  | null
  | bool (b : Bool)
  | int (n : Int)
  | double (d : Double)
  | str (s : String)
  | arr (elements : List Doc)
  | obj (members : List (String × Doc))
  | unreadable
deriving Repr, Inhabited

namespace Doc

mutual

/-- The value of a tree, if every part has one; of repeated keys the last one counts. -/
def value? : Doc → Option Json
  | .null => some .null
  | .bool b => some (.bool b)
  | .int n => some (.int n)
  | .double d => some (.double d)
  | .str s => some (.str s)
  | .arr elements => (elementValues? elements).map .arr
  | .obj members => (memberValues? members).map Json.object
  | .unreadable => none

def elementValues? : List Doc → Option (List Json)
  | [] => some []
  | d :: rest => do
    let v ← value? d
    let vs ← elementValues? rest
    return v :: vs

def memberValues? : List (String × Doc) → Option (List (String × Json))
  | [] => some []
  | (k, d) :: rest => do
    let v ← value? d
    let vs ← memberValues? rest
    return (k, v) :: vs

end

mutual

/-- A value as it is written, its members in their order. -/
def ofValue : Json → Doc
  | .null => .null
  | .bool b => .bool b
  | .int n => .int n
  | .double d => .double d
  | .str s => .str s
  | .arr elements => .arr (ofElements elements)
  | .obj members => .obj (ofMembers members)

def ofElements : List Json → List Doc
  | [] => []
  | v :: rest => ofValue v :: ofElements rest

def ofMembers : List (String × Json) → List (String × Doc)
  | [] => []
  | (k, v) :: rest => (k, ofValue v) :: ofMembers rest

end

end Doc

end ClusterGate
