import ClusterGate.Catalog.Queries
import ClusterGate.NodePool.Basic
import ClusterGate.Patch.Basic
import ClusterGate.Proofs.Catalog.ReadBack
import ClusterGate.Proofs.Json.Ordered
import ClusterGate.Proofs.Store.Content
import ClusterGate.Proofs.Upgrade.Detour
import ClusterGate.Proofs.Upgrade.Review
import ClusterGate.Proofs.Version.Canonical

/-!
# Wire forms

Whatever goes over the wire is read back as it was: optional fields that are left out, fields that are
null, tags beside the members of what they tag, and versions as texts. Main statement:
`wire_forms_read_back`.
-/

namespace ClusterGate

/-! ### SKUs -/

theorem Capability.read?_encode (c : Capability) : read? (Doc.ofValue c.encode) = some c := by
  obtain ⟨s, hslots, hget⟩ := Doc.slots?_object ["name", "value"] (rfl : c.encode = _)
  have hname : s.required "name" Doc.text? = some c.name :=
    Slots.required_of_get? (hget _ (by simp)) rfl
  have hvalue : s.required "value" Doc.text? = some c.value :=
    Slots.required_of_get? (hget _ (by simp)) rfl
  rw [read?, hslots]
  simp only [Option.bind_eq_bind, Option.bind_some, hname, hvalue]
  rfl

theorem Sku.read?_encode {s : Sku} (h : s.zones.Pairwise (· < ·)) :
    read? (Doc.ofValue s.encode) = some s := by
  obtain ⟨slots, hslots, hget⟩ :=
    Doc.slots?_object ["name", "zones", "capabilities"] (rfl : s.encode = _)
  have hname : slots.required "name" Doc.text? = some s.name :=
    Slots.required_of_get? (hget _ (by simp)) rfl
  have hzones : slots.defaulted "zones" [] Doc.textSet? = some s.zones :=
    Slots.defaulted_of_get? (hget _ (by simp)) (Doc.textSet?_ofValue h)
  have hcapabilities : slots.defaulted "capabilities" [] (Doc.list? Capability.read?) =
      some s.capabilities :=
    Slots.defaulted_of_get? (hget _ (by simp)) (Doc.list?_ofValue fun c _ => c.read?_encode)
  rw [read?, hslots]
  simp only [Option.bind_eq_bind, Option.bind_some, hname, hzones, hcapabilities]
  rfl

namespace CapabilityRecord

/-- The numbers have 64 bits, and the zones ascend. -/
structure InRange (r : CapabilityRecord) : Prop where
  memory : r.memoryGb ≤ Text.maxWord
  cpus : r.cpus ≤ Text.maxWord
  zones : r.zones.Pairwise (· < ·)

theorem read?_encode {r : CapabilityRecord} (h : r.InRange) :
    read? (Doc.ofValue r.encode) = some r := by
  obtain ⟨s, hslots, hget⟩ := Doc.slots?_object ["instanceType", "memoryGB", "vCPUs",
    "supportsPremiumStorage", "supportsAcceleratedNetworking", "availabilityZones"]
    (rfl : r.encode = _)
  have htype : s.required "instanceType" Doc.text? = some r.instanceType :=
    Slots.required_of_get? (hget _ (by simp)) rfl
  have hmemory : s.required "memoryGB" Doc.word? = some r.memoryGb :=
    Slots.required_of_get? (hget _ (by simp)) (Doc.word?_ofValue h.memory)
  have hcpus : s.required "vCPUs" Doc.word? = some r.cpus :=
    Slots.required_of_get? (hget _ (by simp)) (Doc.word?_ofValue h.cpus)
  have hpremium : s.required "supportsPremiumStorage" Doc.bool? = some r.premiumStorage :=
    Slots.required_of_get? (hget _ (by simp)) rfl
  have hnetworking : s.required "supportsAcceleratedNetworking" Doc.bool? =
      some r.acceleratedNetworking :=
    Slots.required_of_get? (hget _ (by simp)) rfl
  have hzones : s.required "availabilityZones" Doc.textSet? = some r.zones :=
    Slots.required_of_get? (hget _ (by simp)) (Doc.textSet?_ofValue h.zones)
  rw [read?, hslots]
  simp only [Option.bind_eq_bind, Option.bind_some, htype, hmemory, hcpus, hpremium, hnetworking,
    hzones]
  rfl

end CapabilityRecord

/-! ### Node pools -/

namespace DataDisk

def IsInt32 (n : Int) : Prop := -2147483648 ≤ n ∧ n ≤ 2147483647

/-- The numbers of the disk have 32 bits. -/
structure InRange (d : DataDisk) : Prop where
  size : IsInt32 d.sizeGb
  lun : ∀ n ∈ d.lun, IsInt32 n

theorem int32?_ofValue {n : Int} (h : IsInt32 n) : int32? (Doc.ofValue (.int n)) = some n :=
  Doc.intIn?_ofValue h

theorem read?_encode {d : DataDisk} (h : d.InRange) : read? (Doc.ofValue d.encode) = some d := by
  obtain ⟨s, hslots, hget⟩ := Doc.slots?_object ["nameSuffix", "diskSizeGB", "lun"]
    (rfl : d.encode = _)
  have hsuffix : s.required "nameSuffix" Doc.text? = some d.nameSuffix := by
    refine Slots.required_of_get? (d := .str d.nameSuffix) ?_ rfl
    rw [hget _ (by simp)]
    cases d.lun <;> rfl
  have hsize : s.required "diskSizeGB" int32? = some d.sizeGb := by
    refine Slots.required_of_get? ?_ (int32?_ofValue h.size)
    rw [hget _ (by simp)]
    cases d.lun <;> rfl
  -- a unit number that is not set leaves no member behind
  have hlun : s.defaulted "lun" none (Doc.nullable? int32?) = some d.lun := by
    have hlun := hget "lun" (by simp)
    have hrange := h.lun
    cases hcase : d.lun with
    | none =>
      rw [hcase] at hlun
      rw [Slots.defaulted, hlun]
      rfl
    | some n =>
      rw [hcase] at hlun hrange
      refine Slots.defaulted_of_get? hlun ?_
      show (int32? (Doc.ofValue (.int n))).map some = some (some n)
      rw [int32?_ofValue (hrange n rfl), Option.map_some]
  rw [read?, hslots]
  simp only [Option.bind_eq_bind, Option.bind_some, hsuffix, hsize, hlun]
  rfl

end DataDisk

namespace NodePool

theorem nullable?_orNull {α : Type} {read : Doc → Option α} {encode : α → Json} (a : Option α)
    (hread : ∀ a, read (Doc.ofValue (encode a)) = some a) (hnull : ∀ a, encode a ≠ .null) :
    Doc.nullable? read (Doc.ofValue (orNull encode a)) = some a := by
  cases a with
  | none => rfl
  | some a =>
    have hsome := hread a
    have hne := hnull a
    rw [orNull]
    generalize encode a = v at hsome hne
    unfold Doc.nullable?
    split
    next heq =>
      cases v with
      | null => exact absurd rfl hne
      | _ => cases heq
    next => rw [hsome, Option.map_some]

theorem read?_encode {p : NodePool} (h : ∀ d ∈ p.dataDisks, d.InRange) :
    read? (Doc.ofValue p.encode) = some p := by
  obtain ⟨s, hslots, hget⟩ := Doc.slots?_object ["location", "vmSize", "storageAccountType",
    "acceleratedNetworking", "failureDomain", "dataDisks"] (rfl : p.encode = _)
  have hlocation : s.required "location" Doc.text? = some p.location :=
    Slots.required_of_get? (hget _ (by simp)) rfl
  have hsize : s.required "vmSize" Doc.text? = some p.vmSize :=
    Slots.required_of_get? (hget _ (by simp)) rfl
  have hstorage : s.defaulted "storageAccountType" "" Doc.text? = some p.storageAccountType :=
    Slots.defaulted_of_get? (hget _ (by simp)) rfl
  have hnetworking : s.defaulted "acceleratedNetworking" none (Doc.nullable? Doc.bool?) =
      some p.acceleratedNetworking :=
    Slots.defaulted_of_get? (hget _ (by simp))
      (nullable?_orNull _ (fun _ => rfl) fun _ heq => nomatch heq)
  have hdomain : s.defaulted "failureDomain" none (Doc.nullable? Doc.text?) =
      some p.failureDomain :=
    Slots.defaulted_of_get? (hget _ (by simp))
      (nullable?_orNull _ (fun _ => rfl) fun _ heq => nomatch heq)
  have hdisks : s.defaulted "dataDisks" [] (Doc.list? DataDisk.read?) = some p.dataDisks :=
    Slots.defaulted_of_get? (hget _ (by simp))
      (Doc.list?_ofValue fun d hd => DataDisk.read?_encode (h d hd))
  rw [read?, hslots]
  simp only [Option.bind_eq_bind, Option.bind_some, hlocation, hsize, hstorage, hnetworking, hdomain,
    hdisks]
  rfl

end NodePool

/-! ### Releases -/

theorem Release.read?_encode {r : Release} (h : r.version.WellFormed) :
    read? (Doc.ofValue r.encode) = some r := by
  obtain ⟨s, hslots, hget⟩ := Doc.slots?_object ["version", "rawName", "ignored"]
    (rfl : r.encode = _)
  have hversion : s.required "version" Version.read? = some r.version :=
    Slots.required_of_get? (hget _ (by simp)) h.read?_encode
  have hname : s.required "rawName" Doc.text? = some r.rawName :=
    Slots.required_of_get? (hget _ (by simp)) rfl
  have hignored : s.required "ignored" Doc.bool? = some r.ignored :=
    Slots.required_of_get? (hget _ (by simp)) rfl
  rw [read?, hslots]
  simp only [Option.bind_eq_bind, Option.bind_some, hversion, hname, hignored]
  rfl

/-! ### Tagged records -/

namespace Dict

variable {α : Type} {d : Dict α} {key : String} {value : α} {p : String → Bool}

theorem get?_filter (h : p key = true) : get? key (d.filter fun e => p e.1) = get? key d := by
  rw [get?_eq_find?, get?_eq_find?, List.find?_filter]
  congr 2
  funext e
  by_cases hkey : e.1 = key
  · simp [hkey, h]
  · simp [hkey]

theorem filter_key (hd : d.Sorted) (h : d.get? key = some value) :
    d.filter (fun e => e.1 == key) = [(key, value)] := by
  obtain ⟨front, rest, rfl⟩ := List.append_of_mem ((get?_eq_some_iff hd).mp h)
  have hfront : ∀ e ∈ front, ¬(e.1 == key) = true := by
    intro e he
    simpa using String.ne_of_lt (hd.front_lt e he)
  have hrest : ∀ e ∈ rest, ¬(e.1 == key) = true := by
    intro e he
    simpa using (String.ne_of_lt (hd.lt_rest e he)).symm
  rw [List.filter_append, List.filter_cons_of_pos (by simp), List.filter_eq_nil_iff.mpr hfront,
    List.filter_eq_nil_iff.mpr hrest, List.nil_append]

end Dict

namespace Doc

variable {ms : Dict Json} {tag : String} {v : Json}

theorem filter_ofMembers (p : String → Bool) :
    (ofMembers ms).filter (fun m => p m.1) = ofMembers (ms.filter fun m => p m.1) := by
  rw [ofMembers_eq, ofMembers_eq, List.filter_map]
  rfl

theorem tagged?_ofMembers (hsorted : Dict.Sorted ms) (hordered : Json.OrderedMembers ms)
    (htag : Dict.get? tag ms = some v) :
    tagged? tag (.obj (ofMembers ms)) =
      some (ofValue v, .obj (ofMembers (ms.filter fun m => m.1 != tag))) := by
  have hvalue : (Doc.obj (ofMembers ms)).value?.isSome = true := by
    have hread := value?_ofValue (.obj ms) ⟨hsorted, hordered⟩
    rw [ofValue] at hread
    rw [hread]
    rfl
  have hmembers : (ofMembers ms).filter (fun m => m.1 == tag) = [(tag, ofValue v)] := by
    rw [filter_ofMembers (· == tag), Dict.filter_key hsorted htag]
    rfl
  rw [tagged?]
  simp only [hmembers]
  rw [if_pos hvalue, filter_ofMembers (· != tag)]

end Doc

/-! ### Patches -/

namespace Patch.Operation

variable {path : String} {value : Json} {op : Operation}

def InOrder : Operation → Prop
  | .add _ value | .replace _ value => value.Ordered
  | .remove _ => True

theorem read?_of_tagged (h : op.InOrder) :
    read? (Doc.ofValue op.encode) =
      withName? op.name (.obj (Doc.ofMembers ((Dict.ofList op.fields).filter fun m => m.1 != "op"))) := by
  have hfields : Json.OrderedMembers op.fields := by
    cases op with
    | add path value => exact ⟨trivial, trivial, h, trivial⟩
    | replace path value => exact ⟨trivial, trivial, h, trivial⟩
    | remove path => exact ⟨trivial, trivial, trivial⟩
  have htag : Dict.get? "op" (Dict.ofList op.fields) = some (.str op.name) := by
    rw [Dict.get?_ofList]
    cases op <;> rfl
  obtain ⟨hsorted, hmembers⟩ := Json.ordered_object hfields
  rw [encode, Json.object, Doc.ofValue, read?, Doc.tagged?_ofMembers hsorted hmembers htag]
  rfl

/-- The members beside the tag. -/
theorem slots?_untagged (op : Operation) (names : List String) (htag : "op" ∉ names) :
    ∃ s, Doc.slots? names
        (.obj (Doc.ofMembers ((Dict.ofList op.fields).filter fun m => m.1 != "op"))) = some s ∧
      ∀ name ∈ names, s.get? name =
        ((op.fields.reverse.find? fun e => e.1 == name).map Prod.snd).map Doc.ofValue := by
  obtain ⟨s, hslots, hget⟩ := Doc.slots?_ofMembers names
    ((Dict.sorted_ofList op.fields).filter fun m => m.1 != "op")
  refine ⟨s, hslots, fun name hname => ?_⟩
  have hne : (name != "op") = true := by
    rw [bne_iff_ne]
    rintro rfl
    exact htag hname
  rw [hget name hname, Dict.get?_filter (p := (· != "op")) hne, Dict.get?_ofList]

/-- The members beside the tag of an operation that brings a value. -/
theorem slots?_bringing (op : Operation) {tag : Json} (h : value.Ordered)
    (hfields : op.fields = [("op", tag), ("path", .str path), ("value", value)]) :
    ∃ s, Doc.slots? ["path", "value"]
        (.obj (Doc.ofMembers ((Dict.ofList op.fields).filter fun m => m.1 != "op"))) = some s ∧
      s.required "path" Doc.text? = some path ∧ s.required "value" Doc.value? = some value := by
  obtain ⟨s, hslots, hget⟩ := slots?_untagged op ["path", "value"] (by simp)
  rw [hfields] at hget
  refine ⟨s, hslots, ?_, ?_⟩
  · exact Slots.required_of_get? (hget "path" (by simp)) rfl
  · exact Slots.required_of_get? (hget "value" (by simp)) (Doc.value?_ofValue value h)

theorem read?_encode (h : op.InOrder) : read? (Doc.ofValue op.encode) = some op := by
  rw [read?_of_tagged h]
  cases op with
  | add path value =>
    obtain ⟨s, hslots, hpath, hvalue⟩ := slots?_bringing (.add path value) h rfl
    simp only [name, withName?, hslots, Option.bind_eq_bind, Option.bind_some, hpath, hvalue]
    rfl
  | replace path value =>
    obtain ⟨s, hslots, hpath, hvalue⟩ := slots?_bringing (.replace path value) h rfl
    simp only [name, withName?, hslots, Option.bind_eq_bind, Option.bind_some, hpath, hvalue]
    rfl
  | remove path =>
    obtain ⟨s, hslots, hget⟩ := slots?_untagged (.remove path) ["path"] (by simp)
    have hpath : s.required "path" Doc.text? = some path :=
      Slots.required_of_get? (hget "path" (by simp)) rfl
    simp only [name, withName?, hslots, Option.bind_eq_bind, Option.bind_some, hpath]
    rfl

end Patch.Operation

/-! ### Decisions -/

namespace Upgrade

variable {r : Reason} {d : Decision} {old new : Version} {catalog : List Release}

/-- Every version in the decision has a text. -/
structure Decision.WellFormed (d : Decision) : Prop where
  old : d.old.WellFormed
  new : d.new.WellFormed
  skipped : ∀ v, d.reason = .releaseSkipped v → v.WellFormed

theorem Decision.orderedMembers_fields (d : Decision) : Json.OrderedMembers d.fields := by
  have hreason : Json.OrderedMembers d.reason.fields := by
    cases d.reason with
    | releaseSkipped => exact ⟨trivial, trivial, trivial⟩
    | _ => exact ⟨trivial, trivial⟩
  exact ⟨trivial, trivial, trivial, hreason⟩

/-- The reason is read from its tag and from what stands beside the tag. -/
theorem Reason.withTag?_ofMembers {ms : Dict Json} (hsorted : Dict.Sorted ms)
    (hskipped : ∀ v, r = .releaseSkipped v →
      v.WellFormed ∧ Dict.get? "skipped" ms = some v.encode) :
    withTag? r.tag (.obj (Doc.ofMembers ms)) = some r := by
  cases r with
  | releaseSkipped v =>
    obtain ⟨hv, hget⟩ := hskipped v rfl
    obtain ⟨s, hslots, hfound⟩ := Doc.slots?_ofMembers ["skipped"] hsorted
    have hread : s.required "skipped" Version.read? = some v := by
      refine Slots.required_of_get? ?_ hv.read?_encode
      rw [hfound _ (by simp), hget]
      rfl
    rw [tag, withTag?, if_pos rfl, hslots]
    simp only [Option.bind_eq_bind, Option.bind_some, hread]
    rfl
  | _ => rfl

theorem Decision.get?_fields (d : Decision) (key : String) :
    Dict.get? key (Dict.ofList d.fields) =
      ((d.reason.fields.reverse ++ [("allowed", .bool d.allowed), ("new", d.new.encode),
        ("old", d.old.encode)]).find? fun e => e.1 == key).map Prod.snd := by
  rw [Dict.get?_ofList, fields, List.reverse_append]
  rfl

/-- A key that is none of the decision's own. -/
def Decision.isOther (key : String) : Bool := !(["old", "new", "allowed"].contains key)

/-- What is not the decision's own is the tag of its reason, and a skipped version beside the tag. -/
theorem Decision.reason_of_others (h : d.WellFormed) :
    ∃ rest, (Doc.obj ((Doc.ofMembers (Dict.ofList d.fields)).filter fun m => isOther m.1)).tagged?
        "reason" = some (.str d.reason.tag, rest) ∧
      Reason.withTag? d.reason.tag rest = some d.reason := by
  obtain ⟨hsorted, hordered⟩ := Json.ordered_object d.orderedMembers_fields
  have hothers : Json.OrderedMembers ((Dict.ofList d.fields).filter fun m => isOther m.1) := by
    rw [Json.orderedMembers_iff] at hordered ⊢
    exact fun k v hmem => hordered k v (List.mem_of_mem_filter hmem)
  have htag : Dict.get? "reason" ((Dict.ofList d.fields).filter fun m => isOther m.1) =
      some (.str d.reason.tag) := by
    rw [Dict.get?_filter (p := isOther) (by decide), d.get?_fields]
    cases d.reason <;> rfl
  have hsorted' := hsorted.filter fun m => isOther m.1
  have hreason := Reason.withTag?_ofMembers (r := d.reason)
    (hsorted'.filter fun m => m.1 != "reason") fun v hv => by
      refine ⟨h.skipped v hv, ?_⟩
      rw [Dict.get?_filter (p := (· != "reason")) (by decide),
        Dict.get?_filter (p := isOther) (by decide), d.get?_fields, hv]
      rfl
  rw [Doc.filter_ofMembers isOther, Doc.tagged?_ofMembers hsorted' hothers htag]
  exact ⟨_, rfl, hreason⟩

theorem Decision.read?_encode (h : d.WellFormed) : read? (Doc.ofValue d.encode) = some d := by
  obtain ⟨hsorted, -⟩ := Json.ordered_object d.orderedMembers_fields
  obtain ⟨s, hslots, hget⟩ := Doc.slots?_ofMembers ["old", "new", "allowed"] hsorted
  have hold : s.required "old" Version.read? = some d.old := by
    refine Slots.required_of_get? ?_ h.old.read?_encode
    rw [hget _ (by simp), d.get?_fields]
    cases d.reason <;> rfl
  have hnew : s.required "new" Version.read? = some d.new := by
    refine Slots.required_of_get? ?_ h.new.read?_encode
    rw [hget _ (by simp), d.get?_fields]
    cases d.reason <;> rfl
  have hallowed : s.required "allowed" Doc.bool? = some d.allowed := by
    refine Slots.required_of_get? (d := .bool d.allowed) ?_ rfl
    rw [hget _ (by simp), d.get?_fields]
    cases d.reason <;> rfl
  obtain ⟨rest, htagged, hreason⟩ := Decision.reason_of_others h
  unfold isOther at htagged
  rw [encode, Json.object, Doc.ofValue, read?]
  simp only [Option.bind_eq_bind, Option.bind_some, hslots, hold, hnew, hallowed, htagged, tag?,
    hreason]
  rfl

theorem decide_wellFormed (hold : old.WellFormed) (hnew : new.WellFormed)
    (hcatalog : ∀ r ∈ catalog, r.version.WellFormed) : (decide old new catalog).WellFormed := by
  refine ⟨hold, hnew, fun v hv => ?_⟩
  obtain ⟨r, hr, -, rfl⟩ := (skips_of_reasonFor hv).release
  exact hcatalog r hr

theorem wellFormed_of_lists {records : List Record} (h : List.Forall₂ Catalog.Lists records catalog) :
    ∀ r ∈ catalog, r.version.WellFormed := by
  induction h with
  | nil => exact fun _ hr => absurd hr List.not_mem_nil
  | cons hfirst _ ih => exact List.forall_mem_cons.mpr ⟨Version.wellFormed_of_parse hfirst.1, ih⟩

/-- Whatever a review is told, the versions in its decision are the requested ones and one that was
read from the catalog. -/
theorem wellFormed_of_review {σ : Type} {answer : (q : Query) → σ → Except GateError q.Answer × σ}
    {take : Note → σ → σ} {s : σ} (hold : old.WellFormed) (hnew : new.WellFormed)
    (h : ((review old new).run answer take s).1 = .ok d) : d.WellFormed := by
  cases hsame : old.same new with
  | true =>
    rw [run_of_ended (review_of_same hsame).1] at h
    cases h
    exact ⟨hold, hnew, fun _ hv => nomatch hv⟩
  | false =>
    rw [review_of_differ hsame, Engine.run] at h
    simp only [run_of_ended (ofEngine_settled old new _).1] at h
    cases hanswer : (answer .releases s).1 with
    | error error =>
      rw [hanswer] at h
      cases h
    | ok records =>
      rw [hanswer, judged] at h
      rcases Catalog.mapM_ofRecord records with ⟨releases, hok, hlists⟩ | ⟨_, _, _, _, _, _, _, herror⟩
      · rw [hok] at h
        cases h
        exact decide_wellFormed hold hnew (wellFormed_of_lists hlists)
      · rw [herror] at h
        cases h

end Upgrade

/-! ### All wire forms -/

/-- Everything that goes over the wire is read back as it was, versions with their builds. -/
theorem wire_forms_read_back :
    (∀ r : Record, r.InOrder → Record.read? (Doc.ofValue r.encode) = some r) ∧
    (∀ s : Sku, s.zones.Pairwise (· < ·) → Sku.read? (Doc.ofValue s.encode) = some s) ∧
    (∀ r : CapabilityRecord, r.InRange →
      CapabilityRecord.read? (Doc.ofValue r.encode) = some r) ∧
    (∀ d : DataDisk, d.InRange → DataDisk.read? (Doc.ofValue d.encode) = some d) ∧
    (∀ p : NodePool, (∀ d ∈ p.dataDisks, d.InRange) →
      NodePool.read? (Doc.ofValue p.encode) = some p) ∧
    (∀ r : Release, r.version.WellFormed → Release.read? (Doc.ofValue r.encode) = some r) ∧
    (∀ op : Patch.Operation, op.InOrder →
      Patch.Operation.read? (Doc.ofValue op.encode) = some op) ∧
    (∀ (σ : Type) (answer : (q : Query) → σ → Except GateError q.Answer × σ) (take : Note → σ → σ)
      (s : σ) (old new : Version) (d : Upgrade.Decision), old.WellFormed → new.WellFormed →
      ((Upgrade.review old new).run answer take s).1 = .ok d →
      Upgrade.Decision.read? (Doc.ofValue d.encode) = some d) := by
  refine ⟨fun _ => Record.read?_encode, fun _ => Sku.read?_encode,
    fun _ => CapabilityRecord.read?_encode, fun _ => DataDisk.read?_encode,
    fun _ => NodePool.read?_encode, fun _ => Release.read?_encode,
    fun _ => Patch.Operation.read?_encode, ?_⟩
  intro σ answer take s old new d hold hnew h
  exact Upgrade.Decision.read?_encode (Upgrade.wellFormed_of_review hold hnew h)

theorem wire_forms_read_back_sparse :
    let record : Record := { kind := "Release", name := "v1", annotations := [("a", "")] }
    let sku : Sku := ⟨"D4", ["1", "2"], [⟨"vCPUs", "many"⟩, ⟨"vCPUs", "4"⟩]⟩
    let capabilities : CapabilityRecord := ⟨"D4", Text.maxWord, 4, true, false, []⟩
    let disk : DataDisk := ⟨"docker", -1, none⟩
    let pool : NodePool := { location := "westeurope", failureDomain := some "", dataDisks := [disk] }
    let release : Release := ⟨⟨1, 0, 0, ["rc-1"], ["007"]⟩, "v1-rc-1+007", true⟩
    let op : Patch.Operation := .add "/spec" .null
    let decision : Upgrade.Decision :=
      ⟨.ofNumbers 11 0 0, .ofNumbers 13 0 0, false, .releaseSkipped ⟨12, 0, 0, [], ["007"]⟩⟩
    let s := Direct.Surroundings.ofMemory (.ofRecords [Record.release "v12+007", Record.release "v13"])
    Record.read? (Doc.ofValue record.encode) = some record ∧
      Sku.read? (Doc.ofValue sku.encode) = some sku ∧
      CapabilityRecord.read? (Doc.ofValue capabilities.encode) = some capabilities ∧
      DataDisk.read? (Doc.ofValue disk.encode) = some disk ∧
      NodePool.read? (Doc.ofValue pool.encode) = some pool ∧
      Release.read? (Doc.ofValue release.encode) = some release ∧
      Patch.Operation.read? (Doc.ofValue op.encode) = some op ∧
      (Direct.run s (Upgrade.review decision.old decision.new) { inventory := () }).1 = .ok decision ∧
      Upgrade.Decision.read? (Doc.ofValue decision.encode) = some decision := by
  intro record sku capabilities disk pool release op decision s
  obtain ⟨hrecord, hsku, hcapabilities, hdisk, hpool, hrelease, hop, hdecision⟩ :=
    wire_forms_read_back
  have hdisk' : disk.InRange := ⟨⟨by decide, by decide⟩, fun _ hn => nomatch hn⟩
  have hmade : ∀ {i}, i ≤ Text.maxWord → (Version.ofNumbers i 0 0).WellFormed := fun hi =>
    (Version.Obtained.made hi (Nat.zero_le _) (Nat.zero_le _)).wellFormed
  have hparse : Version.parse "v1-rc-1+007" = .ok ⟨1, 0, 0, ["rc-1"], ["007"]⟩ := rfl
  have hreviewed : (Direct.run s (Upgrade.review decision.old decision.new) { inventory := () }).1 =
      .ok decision := rfl
  exact ⟨hrecord record ⟨.nil, List.pairwise_singleton _ _, trivial⟩,
    hsku sku (by decide), hcapabilities capabilities ⟨by decide, by decide, .nil⟩,
    hdisk disk hdisk', hpool pool (List.forall_mem_singleton.mpr hdisk'),
    hrelease release (Version.wellFormed_of_parse hparse), hop op trivial, hreviewed,
    hdecision _ _ _ _ _ _ _ (hmade (by decide)) (hmade (by decide)) hreviewed⟩

end ClusterGate
