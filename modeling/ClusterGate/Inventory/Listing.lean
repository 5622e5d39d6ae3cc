import ClusterGate.Inventory.Page
import ClusterGate.Inventory.Request
import ClusterGate.Inventory.Status

/-!
# Listing the inventory

A listing calls for the first page and then follows the links from page to page. It ends at the first
page without a link, or at the first call or answer that fails. The other side is a script of
answers; when the script has run out there is nothing left to find.
-/

namespace ClusterGate.Inventory

inductive Response where
  /-- Closes the connection without an answer. -/
  | hangup
  /-- Answers; the body may break off before its announced end. -/
  | answer (status : Nat) (body : List UInt8) (complete : Bool)
deriving DecidableEq, Repr

/-- The body of an answer, unless the exchange failed or the status tells of a failure. -/
def Response.body : Response → Except StorageError (List UInt8)
  | .hangup => .error (.unavailable "the connection was closed")
  | .answer status body complete =>
    if !Status.isFinal status then .error (.unavailable "the answer was not understood")
    else if !Status.isSuccess status then
      .error (.unavailable ("inventory answered " ++ Status.text status))
    else if Status.isBodiless status then .ok []
    else if complete then .ok body
    else .error (.decode "the answer broke off")

def Response.page (r : Response) : Except StorageError Page := do
  match Page.ofBody? (← r.body) with
  | some p => .ok p
  | none => .error (.decode "not a page of SKUs")

def notFound : Response := .answer 404 [] true

def unusableCall : StorageError := .unavailable "not a URL that can be requested"

/-- What becomes of one call: its SKUs and the link to the next page. Whether it can be made at all is
up to who carries it out. -/
def fetch (usable : Call → Bool) (region : String) (call : Call) (response : Response) :
    Except StorageError (List Sku × Option String) :=
  if usable call then response.page.map fun p => (p.skus region, p.next?) else .error unusableCall

/-- Lists from a call on against a script of answers. The calls are part of the result. -/
def listFrom (c : Config) (usable : Call → Bool) (region : String) :
    Call → List Response → Except StorageError (List Sku) × List Call
  | call, [] => ((fetch usable region call notFound).map Prod.fst, [call])
  | call, response :: rest =>
    match fetch usable region call response with
    | .error e => (.error e, [call])
    | .ok (skus, none) => (.ok skus, [call])
    | .ok (skus, some link) =>
      let (more, later) := listFrom c usable region (c.linkCall link) rest
      (more.map (skus ++ ·), call :: later)

def list (c : Config) (usable : Call → Bool) (region filter : String) (script : List Response) :
    Except StorageError (List Sku) × List Call :=
  listFrom c usable region (c.firstCall filter) script

/-- The other side of a listing: where it takes unencrypted connections, if it is there at all, the
answers it has left and the requests it got. -/
structure Server where
  place : Option (Host × Nat)
  script : List Response
  requests : List Request := []
deriving DecidableEq, Repr

namespace Server

def isAddressed (s : Server) (r : Request) : Bool := !r.secure && s.place == some (r.host, r.port)

def reached? (s : Server) (call : Call) : Option Request := call.request?.filter s.isAddressed

/-- Each request takes one answer. -/
def list (s : Server) (c : Config) (region filter : String) :
    Except StorageError (List Sku) × Server :=
  let (result, calls) :=
    Inventory.list c (fun call => (s.reached? call).isSome) region filter s.script
  let reached := calls.filterMap s.reached?
  (result, { s with script := s.script.drop reached.length, requests := s.requests ++ reached })

end Server

end ClusterGate.Inventory
