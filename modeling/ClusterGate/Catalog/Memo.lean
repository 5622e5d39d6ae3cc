import ClusterGate.Catalog.Release
import ClusterGate.Context

/-!
# The component memo

The components of a release are read from its record once and then remembered under its name. A
reading moves in steps like a lookup of the region cache; it takes no lock, so two readings of one
release may both read its record, and the first to finish is remembered.
-/

namespace ClusterGate

/-- The components remembered, by release name. -/
abbrev ComponentMemo := Dict Components

/-- Where the reading of a release's components stands. -/
inductive Reading where
  /-- About to look into the memo. -/
  | checking
  /-- Reads the record; the store is called or not yet called. -/
  | reading (called : Bool)
  /-- Has the components, about to remember them. -/
  | decoded (components : Components)
  | done (result : Except GateError Components)

namespace ComponentMemo

def readOperation : String := "catalog.get"

def ofAnswer (name : String) : Except StorageError (Option Record) → Except GateError Components
  | .error e => .error (.ofStorage e)
  | .ok none => .error (.releaseNotFound name)
  | .ok (some r) => Components.ofRecord name r

/-- Remembers components unless the release is remembered already. -/
def remember (memo : ComponentMemo) (name : String) (components : Components) : ComponentMemo :=
  match memo.get? name with
  | some _ => memo
  | none => memo.insert name components

/-- One step of a reading, or none if it has to wait or is done. -/
def step (memo : ComponentMemo) (name : String) (interrupt : Option Interrupt)
    (answer : Option (Except StorageError (Option Record))) :
    Reading → Option (ComponentMemo × Reading)
  | .checking => match memo.get? name with
    | some components => some (memo, .done (.ok components))
    | none => some (memo, .reading false)
  | .reading called => match guarded interrupt (if called then answer else none) with
    | some (.error i) => some (memo, .done (.error (.ofInterrupt readOperation i)))
    | some (.ok result) => match ofAnswer name result with
      | .ok components => some (memo, .decoded components)
      | .error e => some (memo, .done (.error e))
    | none => if called then none else some (memo, .reading true)
  | .decoded components => some (memo.remember name components, .done (.ok components))
  | .done _ => none

end ComponentMemo

/-- Where the listing of all release records stands. -/
inductive CatalogListing where
  /-- Lists the records; the store is called or not yet called. -/
  | listing (called : Bool)
  | done (result : Except GateError (List Record))

namespace CatalogListing

def listOperation : String := "catalog.list"

/-- One step of a listing, or none if it has to wait or is done. -/
def step (interrupt : Option Interrupt) (answer : Option (Except StorageError (List Record))) :
    CatalogListing → Option CatalogListing
  | .listing called => match guarded interrupt (if called then answer else none) with
    | some (.error i) => some (.done (.error (.ofInterrupt listOperation i)))
    | some (.ok (.error e)) => some (.done (.error (.ofStorage e)))
    | some (.ok (.ok records)) => some (.done (.ok records))
    | none => if called then none else some (.listing true)
  | .done _ => none

end CatalogListing

end ClusterGate
