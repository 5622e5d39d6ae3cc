import ClusterGate.Patch.Basic

/-!
# Applying patches

What the operations of a patch mean: the pointer of an operation leads to a place in the document,
where a member or an element is added, replaced or removed. An operation whose place is not there
fails, and so does the patch.
-/

namespace ClusterGate

namespace Json

/-- The number that a token stands for as an index: `0`, or digits that do not begin with a zero. -/
def index? (token : String) : Option Nat :=
  match token.toList with
  | ['0'] => some 0
  | cs => if cs ≠ [] ∧ cs.all Text.isDigit ∧ cs.head? ≠ some '0' then some (Text.digitsValue cs)
    else none

/-- Changes the value one step down, which has to be there. -/
def changeAt? (token : String) (change : Json → Option Json) : Json → Option Json
  | .obj members => do
    let v ← Dict.get? token members
    return .obj (Dict.insert token (← change v) members)
  | .arr elements => do
    let i ← index? token
    let v ← elements[i]?
    return .arr (elements.set i (← change v))
  | _ => none

/-- Adds a value one step down: a member that may be there already, or an element before the one at
an index or at the end. -/
def addAt? (token : String) (value : Json) : Json → Option Json
  | .obj members => some (.obj (Dict.insert token value members))
  | .arr elements => do
    let i ← if token = "-" then some elements.length else index? token
    if i ≤ elements.length then some (.arr (elements.insertIdx i value)) else none
  | _ => none

/-- Removes the value one step down, which has to be there. -/
def removeAt? (token : String) : Json → Option Json
  | .obj members => do
    let _ ← Dict.get? token members
    return .obj (Dict.erase token members)
  | .arr elements => do
    let i ← index? token
    if i < elements.length then some (.arr (elements.eraseIdx i)) else none
  | _ => none

/-- Goes down to the value above the last token and changes it; no token means the whole value. -/
def descend? (last : String → Json → Option Json) (whole : Json → Option Json) :
    List String → Json → Option Json
  | [] => whole
  | [token] => last token
  | token :: rest => changeAt? token (descend? last whole rest)

end Json

namespace Patch

/-- Applies one operation. The whole document can be added or replaced, not removed. -/
def Operation.performOn? : Operation → Json → Option Json
  | .add path value, doc => do
    Json.descend? (fun token => Json.addAt? token value) (fun _ => some value)
      (← Pointer.tokens? path) doc
  | .replace path value, doc => do
    Json.descend? (fun token => Json.changeAt? token fun _ => some value) (fun _ => some value)
      (← Pointer.tokens? path) doc
  | .remove path, doc => do
    Json.descend? Json.removeAt? (fun _ => none) (← Pointer.tokens? path) doc

def performOn? (ops : List Operation) (doc : Json) : Option Json :=
  ops.foldlM (fun doc op => op.performOn? doc) doc

end Patch

end ClusterGate
