import ClusterGate.Store.Record
import ClusterGate.Error

/-!
# Releases of a catalog

A release is listed by a record whose name is a version. An annotation marks releases that upgrade
rules ignore.
-/

namespace ClusterGate

structure Release where
  version : Version
  rawName : String
  ignored : Bool
deriving DecidableEq, Repr

namespace Release

def ignoreAnnotation : String := "release.giantswarm.io/ignore"

def ofVersion (v : Version) : Release := ⟨v, v.releaseName, false⟩

def ignore (r : Release) : Release := { r with ignored := true }

/-- Whether a record carries the ignore mark; its value counts in any case. -/
def isMarked (r : Record) : Bool :=
  match r.annotations.get? ignoreAnnotation with
  | some value => Text.sameIgnoringCase value "true"
  | none => false

def ofRecord (r : Record) : Except GateError Release :=
  match Version.parse r.name with
  | .ok v => .ok ⟨v, r.name, isMarked r⟩
  | .error e => .error (.invalidRelease r.name e.fault.text)

def encode (r : Release) : Json :=
  Json.object [("version", r.version.encode), ("rawName", .str r.rawName),
    ("ignored", .bool r.ignored)]

def read? (d : Doc) : Option Release := do
  let s ← d.slots? ["version", "rawName", "ignored"]
  return ⟨← s.required "version" Version.read?, ← s.required "rawName" Doc.text?,
    ← s.required "ignored" Doc.bool?⟩

end Release

/-- The component versions of a release by component name. -/
abbrev Components := Dict String

namespace Components

/-- Reads one component; without a version its version is empty. -/
def readOne? (d : Doc) : Option (String × String) := do
  let s ← d.slots? ["name", "version"]
  return (← s.required "name" Doc.text?, ← s.defaulted "version" "" Doc.text?)

def read? (d : Doc) : Option Components := do
  let s ← d.slots? ["components"]
  return Dict.ofList (← s.defaulted "components" [] (Doc.list? readOne?))

/-- The components of the record of a release; no specification means no components. -/
def ofRecord (name : String) (r : Record) : Except GateError Components :=
  match r.spec with
  | .null => .ok []
  | spec => match read? (Doc.ofValue spec) with
    | some components => .ok components
    | none => .error (.malformedRecord ("release " ++ name ++ ": not a release specification"))

def ships (components : Components) (component : String) : Bool :=
  match components.get? component with
  | some version => version ≠ ""
  | none => false

end Components

end ClusterGate
