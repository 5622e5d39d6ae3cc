import ClusterGate.Json.Fields
import ClusterGate.Error

/-!
# Inventory configuration

Where the inventory is, whose SKUs it lists and how requests are made. Environment variables set it;
only the subscription has to be given.
-/

namespace ClusterGate

def programVersion : String := "0.3.1"

namespace Inventory

/-- The name under which the program makes requests. -/
def userAgent : String := "admission-gate/" ++ programVersion

structure Duration where
  seconds : Nat
  nanos : Nat := 0
deriving DecidableEq, Repr

namespace Duration

def encode (d : Duration) : Json :=
  Json.object [("secs", .int d.seconds), ("nanos", .int d.nanos)]

/-- Reads a span; no other members are allowed. Nanoseconds past a second count as seconds. -/
def read? (d : Doc) : Option Duration := do
  let known := match d with
    | .obj members => members.all fun m => m.1 == "secs" || m.1 == "nanos"
    | _ => true
  let s ← d.slots? ["secs", "nanos"]
  let seconds ← s.required "secs" Doc.word?
  let nanos ← s.required "nanos" (Doc.intIn? 0 4294967295)
  let total := seconds + nanos.toNat / 1000000000
  if known && total ≤ Text.maxWord then some ⟨total, nanos.toNat % 1000000000⟩ else none

end Duration

structure Config where
  endpoint : String
  subscriptionId : String
  apiVersion : String
  token : Option String
  requestTimeout : Duration
deriving DecidableEq, Repr

abbrev Environment := Dict String

namespace Config

def ofSubscription (id : String) : Config :=
  ⟨"https://management.azure.com", id, "2019-04-01", none, ⟨30, 0⟩⟩

def subscriptionVariable : String := "ADMISSION_SUBSCRIPTION_ID"

def endpointVariable : String := "ADMISSION_INVENTORY_ENDPOINT"

def apiVersionVariable : String := "ADMISSION_INVENTORY_API_VERSION"

def tokenVariable : String := "ADMISSION_INVENTORY_TOKEN"

def variableNames : List String :=
  [subscriptionVariable, endpointVariable, apiVersionVariable, tokenVariable]

def ofEnvironment (env : Environment) : Except StorageError Config :=
  match env.get? subscriptionVariable with
  | none => .error (.unavailable (subscriptionVariable ++ " is not set"))
  | some id =>
    let c := ofSubscription id
    .ok { c with
      endpoint := (env.get? endpointVariable).getD c.endpoint
      apiVersion := (env.get? apiVersionVariable).getD c.apiVersion
      token := env.get? tokenVariable }

def encode (c : Config) : Json :=
  Json.object [("endpoint", .str c.endpoint), ("subscription_id", .str c.subscriptionId),
    ("api_version", .str c.apiVersion),
    ("token", match c.token with | some t => .str t | none => .null),
    ("request_timeout", c.requestTimeout.encode)]

def read? (d : Doc) : Option Config := do
  let s ← d.slots? ["endpoint", "subscription_id", "api_version", "token", "request_timeout"]
  return {
    endpoint := ← s.required "endpoint" Doc.text?
    subscriptionId := ← s.required "subscription_id" Doc.text?
    apiVersion := ← s.required "api_version" Doc.text?
    token := ← s.optional "token" Doc.text?
    requestTimeout := ← s.required "request_timeout" Duration.read? }

end Config

end Inventory

end ClusterGate
