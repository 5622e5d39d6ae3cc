import ClusterGate.Json.Doc
import ClusterGate.Text.Basic

/-!
# Reading records from JSON

A record is read from an object by the names of its fields, or from an array by their positions.
Members with other names are skipped unread. A field that is named twice is refused, and so are more
elements than fields.
-/

namespace ClusterGate

/-- The fields of a record as found in a tree. -/
structure Slots where
  /-- Fields came by position. -/
  positional : Bool
  found : List (String × Doc)

namespace Slots

def get? (s : Slots) (name : String) : Option Doc :=
  (s.found.find? fun entry => entry.1 == name).map Prod.snd

def required {α : Type} (s : Slots) (name : String) (read : Doc → Option α) : Option α :=
  (s.get? name).bind read

def defaulted {α : Type} (s : Slots) (name : String) (default : α) (read : Doc → Option α) :
    Option α :=
  match s.get? name with
  | some d => read d
  | none => some default

end Slots

namespace Doc

def slots? (names : List String) : Doc → Option Slots
  | .obj members =>
    if names.all fun name => (members.filter fun m => m.1 == name).length ≤ 1
    then some ⟨false, members.filter fun m => names.contains m.1⟩ else none
  | .arr elements =>
    if elements.length ≤ names.length then some ⟨true, names.zip elements⟩ else none
  | _ => none

def text? : Doc → Option String
  | .str s => some s
  | _ => none

def bool? : Doc → Option Bool
  | .bool b => some b
  | _ => none

def intIn? (low high : Int) : Doc → Option Int
  | .int n => if low ≤ n ∧ n ≤ high then some n else none
  | _ => none

def word? (d : Doc) : Option Nat := (intIn? 0 Text.maxWord d).map Int.toNat

def nullable? {α : Type} (read : Doc → Option α) : Doc → Option (Option α)
  | .null => some none
  | d => (read d).map some

def list? {α : Type} (read : Doc → Option α) : Doc → Option (List α)
  | .arr elements => elements.mapM read
  | _ => none

/-- A dictionary of texts; of repeated keys the last one counts. -/
def textMap? : Doc → Option (Dict String)
  | .obj members => (members.mapM fun m => (text? m.2).map fun s => (m.1, s)).map Dict.ofList
  | _ => none

def textSet? (d : Doc) : Option (List String) := (list? text? d).map sortedSet

end Doc

/-- A field that may be null, and may be missing from an object but not from an array. -/
def Slots.optional {α : Type} (s : Slots) (name : String) (read : Doc → Option α) :
    Option (Option α) :=
  match s.get? name with
  | some d => Doc.nullable? read d
  | none => if s.positional then none else some none

end ClusterGate
