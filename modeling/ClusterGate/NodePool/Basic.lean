import ClusterGate.Json.Fields

/-!
# Node pools

The specification of a pool of machines, as far as the rules look at it.
-/

namespace ClusterGate

structure DataDisk where
  nameSuffix : String
  /-- A number of 32 bits with sign. -/
  sizeGb : Int
  lun : Option Int := none
deriving DecidableEq, Repr

namespace DataDisk

/-- A data disk as JSON; a missing unit number is left out. -/
def encode (d : DataDisk) : Json :=
  Json.object ([("nameSuffix", .str d.nameSuffix), ("diskSizeGB", .int d.sizeGb)] ++
    match d.lun with
    | some n => [("lun", .int n)]
    | none => [])

def int32? (d : Doc) : Option Int := Doc.intIn? (-2147483648) 2147483647 d

def read? (d : Doc) : Option DataDisk := do
  let s ← d.slots? ["nameSuffix", "diskSizeGB", "lun"]
  return {
    nameSuffix := ← s.required "nameSuffix" Doc.text?
    sizeGb := ← s.required "diskSizeGB" int32?
    lun := ← s.defaulted "lun" none (Doc.nullable? int32?) }

def desired : List DataDisk := [⟨"docker", 100, some 21⟩, ⟨"kubelet", 100, some 22⟩]

end DataDisk

structure NodePool where
  location : String := ""
  vmSize : String := ""
  storageAccountType : String := ""
  acceleratedNetworking : Option Bool := none
  failureDomain : Option String := none
  dataDisks : List DataDisk := []
deriving DecidableEq, Repr, Inhabited

namespace NodePool

def orNull {α : Type} (encode : α → Json) : Option α → Json
  | some a => encode a
  | none => .null

def encode (p : NodePool) : Json :=
  Json.object [("location", .str p.location), ("vmSize", .str p.vmSize),
    ("storageAccountType", .str p.storageAccountType),
    ("acceleratedNetworking", orNull .bool p.acceleratedNetworking),
    ("failureDomain", orNull .str p.failureDomain),
    ("dataDisks", .arr (p.dataDisks.map DataDisk.encode))]

def read? (d : Doc) : Option NodePool := do
  let s ← d.slots? ["location", "vmSize", "storageAccountType", "acceleratedNetworking",
    "failureDomain", "dataDisks"]
  return {
    location := ← s.required "location" Doc.text?
    vmSize := ← s.required "vmSize" Doc.text?
    storageAccountType := ← s.defaulted "storageAccountType" "" Doc.text?
    acceleratedNetworking :=
      ← s.defaulted "acceleratedNetworking" none (Doc.nullable? Doc.bool?)
    failureDomain := ← s.defaulted "failureDomain" none (Doc.nullable? Doc.text?)
    dataDisks := ← s.defaulted "dataDisks" [] (Doc.list? DataDisk.read?) }

/-- The failure domain, if it is set and not empty. -/
def effectiveFailureDomain (p : NodePool) : Option String :=
  p.failureDomain.filter fun domain => domain ≠ ""

def minMemoryGb : Nat := 16

def minCpus : Nat := 4

def standardStorage : String := "Standard_LRS"

def premiumStorage : String := "Premium_LRS"

def storagePath : String := "/spec/template/osDisk/managedDisk/storageAccountType"

def disksPath : String := "/spec/template/dataDisks"

def locationPath : String := "/spec/location"

end NodePool

end ClusterGate
