import ClusterGate.Json.Fields

/-!
# Records

What a store keeps: a record of some kind under a name, with labels, annotations and a specification.
The store in memory keeps them by kind and name; a record that is stored again is replaced.
-/

namespace ClusterGate

structure Record where
  kind : String
  name : String
  labels : Dict String := []
  annotations : Dict String := []
  spec : Json := .null
deriving Repr, Inhabited

def releaseKind : String := "Release"

namespace Record

/-- The members of a record in their order; empty labels and annotations are left out. -/
def fields (r : Record) : List (String × Json) :=
  [("kind", .str r.kind), ("name", .str r.name)] ++
  (if r.labels.isEmpty then [] else [("labels", Json.textMap r.labels)]) ++
  (if r.annotations.isEmpty then [] else [("annotations", Json.textMap r.annotations)]) ++
  [("spec", r.spec)]

def encode (r : Record) : Json := Json.object r.fields

def read? (d : Doc) : Option Record := do
  let s ← d.slots? ["kind", "name", "labels", "annotations", "spec"]
  return {
    kind := ← s.required "kind" Doc.text?
    name := ← s.required "name" Doc.text?
    labels := ← s.defaulted "labels" [] Doc.textMap?
    annotations := ← s.defaulted "annotations" [] Doc.textMap?
    spec := ← s.defaulted "spec" .null Doc.value? }

def annotate (r : Record) (key value : String) : Record :=
  { r with annotations := r.annotations.insert key value }

def label (r : Record) (key value : String) : Record :=
  { r with labels := r.labels.insert key value }

def release (name : String) : Record := ⟨releaseKind, name, [], [], .null⟩

end Record

/-! ### The store in memory -/

structure MemoryStore where
  kinds : Dict (Dict Record) := []
deriving Repr, Inhabited

namespace MemoryStore

def ofKind (s : MemoryStore) (kind : String) : Dict Record := (s.kinds.get? kind).getD []

def insert (s : MemoryStore) (r : Record) : MemoryStore :=
  ⟨s.kinds.insert r.kind ((s.ofKind r.kind).insert r.name r)⟩

def list (s : MemoryStore) (kind : String) : List Record := (s.ofKind kind).map Prod.snd

def get? (s : MemoryStore) (kind name : String) : Option Record := (s.ofKind kind).get? name

end MemoryStore

end ClusterGate
