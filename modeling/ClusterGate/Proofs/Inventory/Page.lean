import ClusterGate.Inventory.Page
import ClusterGate.Proofs.Json.Bytes
import ClusterGate.Proofs.Json.Fields
import ClusterGate.Proofs.Json.ReadBack

/-!
# Pages are decoded as they are written

A field that a page or a part of it lacks is left out, and members that are no fields are skipped.
Main statement: `ofBody?_written`.
-/

namespace ClusterGate.Inventory

/-- The names of the fields of pages and of their parts. -/
def fieldNames : List String :=
  ["value", "nextLink", "name", "resourceType", "locationInfo", "capabilities", "location", "zones"]

def textField (name : String) (s : Option String) : List (String × Json) :=
  s.toList.map fun s => (name, .str s)

/-! Besides its fields each part has the same members more. -/

section Written

variable (more : List (String × Json))

def LocationInfo.written (i : LocationInfo) : Json :=
  .obj (textField "location" i.location ++ ("zones", Json.texts i.zones) :: more)

def LooseCapability.written (c : LooseCapability) : Json :=
  .obj (textField "name" c.name ++ (textField "value" c.value ++ more))

def Item.written (i : Item) : Json :=
  .obj (textField "name" i.name ++ (textField "resourceType" i.resourceType ++
    ("locationInfo", .arr (i.locations.map (LocationInfo.written more))) ::
    ("capabilities", .arr (i.capabilities.map (LooseCapability.written more))) :: more))

def Page.written (p : Page) : Json :=
  .obj (("value", .arr (p.items.map (Item.written more))) ::
    (textField "nextLink" p.nextLink ++ more))

/-- The members are no fields, their numbers are whole ones of 64 bits, and wherever they stand they nest
no deeper than readers go. -/
structure Skipped : Prop where
  unknown : ∀ m ∈ more, m.1 ∉ fieldNames
  integral : Json.IntegralMembers more
  shallow : Json.nestingMembers more + 6 ≤ Json.maxDepth

end Written

variable {more rest : List (String × Json)} {name key : String} {t : Option String}

theorem Skipped.not_mem_keys (h : Skipped more) (hname : name ∈ fieldNames) :
    name ∉ Dict.keys more := by
  intro hmem
  obtain ⟨m, hm, rfl⟩ := List.mem_map.mp hmem
  exact h.unknown m hm hname

theorem Skipped.get? (h : Skipped more) (hname : name ∈ fieldNames) : Dict.get? name more = none :=
  Dict.get?_eq_none_iff.mpr (h.not_mem_keys hname)

theorem Skipped.count (h : Skipped more) (hname : name ∈ fieldNames) :
    (more.map Prod.fst).count name = 0 :=
  List.count_eq_zero.mpr (h.not_mem_keys hname)

theorem get?_textField (hrest : Dict.get? name rest = none) :
    Dict.get? name (textField name t ++ rest) = t.map .str := by
  cases t with
  | none => exact hrest
  | some t => exact if_pos rfl

theorem get?_textField_of_ne (h : key ≠ name) :
    Dict.get? name (textField key t ++ rest) = Dict.get? name rest := by
  cases t with
  | none => rfl
  | some t => exact if_neg h

theorem count_textField_le : ((textField key t ++ rest).map Prod.fst).count name ≤
    (if key = name then 1 else 0) + (rest.map Prod.fst).count name := by
  cases t with
  | none => exact Nat.le_add_left _ _
  | some t =>
    simp only [textField, Option.toList_some, List.map_cons, List.map_nil, List.singleton_append,
      List.count_cons, beq_iff_eq]
    omega

/-- A text that is there is read, and one that is left out is missing. -/
theorem optional_text {s : Slots} (hpositional : s.positional = false)
    (hget : s.get? name = (t.map Json.str).map Doc.ofValue) : s.optional name Doc.text? = some t := by
  rw [Slots.optional, hget]
  cases t with
  | none => exact if_neg (by simp [hpositional])
  | some t => rfl

theorem LocationInfo.read?_written (h : Skipped more) (i : LocationInfo) :
    read? (Doc.ofValue (i.written more)) = some i := by
  have honce : ∀ name ∈ ["location", "zones"], ((textField "location" i.location ++
      ("zones", Json.texts i.zones) :: more).map Prod.fst).count name ≤ 1 := by
    intro name hname
    refine count_textField_le.trans ?_
    rw [List.map_cons, List.count_cons, h.count ((by decide : _ ⊆ fieldNames) hname)]
    simp only [List.mem_cons, List.not_mem_nil, or_false] at hname
    rcases hname with rfl | rfl <;> simp
  obtain ⟨s, hslots, hpositional, hget⟩ := Doc.slots?_of_count honce
  have hlocation : s.optional "location" Doc.text? = some i.location := by
    refine optional_text hpositional ?_
    rw [hget _ (by simp), get?_textField]
    exact h.get? (by decide)
  have hzones : s.defaulted "zones" [] (Doc.list? Doc.text?) = some i.zones := by
    refine Slots.defaulted_of_get? (d := Doc.ofValue (Json.texts i.zones)) ?_
      (Doc.list?_ofValue fun _ _ => rfl)
    rw [hget _ (by simp), get?_textField_of_ne (by decide)]
    rfl
  rw [written, Doc.ofValue, read?, hslots]
  simp only [Option.bind_eq_bind, Option.bind_some, hlocation, hzones]
  rfl

theorem LooseCapability.read?_written (h : Skipped more) (c : LooseCapability) :
    read? (Doc.ofValue (c.written more)) = some c := by
  have honce : ∀ name ∈ ["name", "value"], ((textField "name" c.name ++
      (textField "value" c.value ++ more)).map Prod.fst).count name ≤ 1 := by
    intro name hname
    refine count_textField_le.trans ((Nat.add_le_add_left count_textField_le _).trans ?_)
    rw [h.count ((by decide : _ ⊆ fieldNames) hname)]
    simp only [List.mem_cons, List.not_mem_nil, or_false] at hname
    rcases hname with rfl | rfl <;> simp
  obtain ⟨s, hslots, hpositional, hget⟩ := Doc.slots?_of_count honce
  have hname : s.optional "name" Doc.text? = some c.name := by
    refine optional_text hpositional ?_
    rw [hget _ (by simp), get?_textField]
    rw [get?_textField_of_ne (by decide), h.get? (by decide)]
  have hvalue : s.optional "value" Doc.text? = some c.value := by
    refine optional_text hpositional ?_
    rw [hget _ (by simp), get?_textField_of_ne (by decide), get?_textField (h.get? (by decide))]
  rw [written, Doc.ofValue, read?, hslots]
  simp only [Option.bind_eq_bind, Option.bind_some, hname, hvalue]
  rfl

theorem Item.read?_written (h : Skipped more) (i : Item) :
    read? (Doc.ofValue (i.written more)) = some i := by
  have honce : ∀ name ∈ ["name", "resourceType", "locationInfo", "capabilities"],
      ((textField "name" i.name ++ (textField "resourceType" i.resourceType ++
        ("locationInfo", .arr (i.locations.map (LocationInfo.written more))) ::
        ("capabilities", .arr (i.capabilities.map (LooseCapability.written more))) :: more)).map
          Prod.fst).count name ≤ 1 := by
    intro name hname
    refine count_textField_le.trans ((Nat.add_le_add_left count_textField_le _).trans ?_)
    rw [List.map_cons, List.map_cons, List.count_cons, List.count_cons,
      h.count ((by decide : _ ⊆ fieldNames) hname)]
    simp only [List.mem_cons, List.not_mem_nil, or_false] at hname
    rcases hname with rfl | rfl | rfl | rfl <;> simp
  obtain ⟨s, hslots, hpositional, hget⟩ := Doc.slots?_of_count honce
  have hname : s.optional "name" Doc.text? = some i.name := by
    refine optional_text hpositional ?_
    rw [hget _ (by simp), get?_textField]
    rw [get?_textField_of_ne (by decide)]
    simp only [Dict.get?, h.get? (by decide : "name" ∈ fieldNames)]
    rfl
  have htype : s.optional "resourceType" Doc.text? = some i.resourceType := by
    refine optional_text hpositional ?_
    rw [hget _ (by simp), get?_textField_of_ne (by decide), get?_textField]
    simp only [Dict.get?, h.get? (by decide : "resourceType" ∈ fieldNames)]
    rfl
  have hlocations : s.defaulted "locationInfo" [] (Doc.list? LocationInfo.read?) =
      some i.locations := by
    refine Slots.defaulted_of_get? ?_ (Doc.list?_ofValue fun l _ => l.read?_written h)
    rw [hget _ (by simp), get?_textField_of_ne (by decide), get?_textField_of_ne (by decide)]
    rfl
  have hcapabilities : s.defaulted "capabilities" [] (Doc.list? LooseCapability.read?) =
      some i.capabilities := by
    refine Slots.defaulted_of_get? ?_ (Doc.list?_ofValue fun c _ => c.read?_written h)
    rw [hget _ (by simp), get?_textField_of_ne (by decide), get?_textField_of_ne (by decide)]
    rfl
  rw [written, Doc.ofValue, read?, hslots]
  simp only [Option.bind_eq_bind, Option.bind_some, hname, htype, hlocations, hcapabilities]
  rfl

theorem Page.read?_written (h : Skipped more) (p : Page) :
    read? (Doc.ofValue (p.written more)) = some p := by
  have honce : ∀ name ∈ ["value", "nextLink"],
      ((("value", .arr (p.items.map (Item.written more))) ::
        (textField "nextLink" p.nextLink ++ more)).map Prod.fst).count name ≤ 1 := by
    intro name hname
    rw [List.map_cons, List.count_cons]
    refine (Nat.add_le_add_right count_textField_le _).trans ?_
    rw [h.count ((by decide : _ ⊆ fieldNames) hname)]
    simp only [List.mem_cons, List.not_mem_nil, or_false] at hname
    rcases hname with rfl | rfl <;> simp
  obtain ⟨s, hslots, hpositional, hget⟩ := Doc.slots?_of_count honce
  have hitems : s.defaulted "value" [] (Doc.list? Item.read?) = some p.items :=
    Slots.defaulted_of_get? (hget _ (by simp)) (Doc.list?_ofValue fun i _ => i.read?_written h)
  have hlink : s.optional "nextLink" Doc.text? = some p.nextLink := by
    refine optional_text hpositional ?_
    rw [hget _ (by simp)]
    exact congrArg _ (get?_textField (h.get? (by decide)))
  rw [written, Doc.ofValue, read?, hslots]
  simp only [Option.bind_eq_bind, Option.bind_some, hitems, hlink]
  rfl

/-! ### From the bytes -/

open Json (Integral IntegralElements IntegralMembers nesting nestingElements nestingMembers)

theorem integralMembers_textField (h : IntegralMembers rest) :
    IntegralMembers (textField key t ++ rest) := by
  cases t with
  | none => exact h
  | some t => exact ⟨trivial, h⟩

theorem nestingMembers_textField :
    nestingMembers (textField key t ++ rest) = nestingMembers rest := by
  cases t with
  | none => rfl
  | some t => exact Nat.zero_max _

theorem integralElements_map {α : Type} (write : α → Json) (h : ∀ a, (write a).Integral)
    (as : List α) : IntegralElements (as.map write) := by
  induction as with
  | nil => trivial
  | cons a as ih => exact ⟨h a, ih⟩

theorem nestingElements_map_le {α : Type} (write : α → Json) {n : Nat}
    (h : ∀ a, (write a).nesting ≤ n) (as : List α) : nestingElements (as.map write) ≤ n := by
  induction as with
  | nil => exact Nat.zero_le n
  | cons a as ih => exact Nat.max_le.mpr ⟨h a, ih⟩

section Shape

variable (h : IntegralMembers more)
include h

theorem LocationInfo.integral_written (i : LocationInfo) : (i.written more).Integral :=
  integralMembers_textField ⟨integralElements_map .str (fun _ => trivial) i.zones, h⟩

theorem LooseCapability.integral_written (c : LooseCapability) : (c.written more).Integral :=
  integralMembers_textField (integralMembers_textField h)

theorem Item.integral_written (i : Item) : (i.written more).Integral :=
  integralMembers_textField (integralMembers_textField
    ⟨integralElements_map _ (LocationInfo.integral_written h) i.locations,
      integralElements_map _ (LooseCapability.integral_written h) i.capabilities, h⟩)

theorem Page.integral_written (p : Page) : (p.written more).Integral :=
  ⟨integralElements_map _ (Item.integral_written h) p.items, integralMembers_textField h⟩

end Shape

theorem LocationInfo.nesting_written (more : List (String × Json)) (i : LocationInfo) :
    (i.written more).nesting ≤ nestingMembers more + 2 := by
  have hzones : (Json.texts i.zones).nesting ≤ 1 :=
    Nat.succ_le_succ (nestingElements_map_le .str (fun _ => Nat.le_refl 0) i.zones)
  rw [written, nesting, nestingMembers_textField, nestingMembers]
  omega

theorem LooseCapability.nesting_written (more : List (String × Json)) (c : LooseCapability) :
    (c.written more).nesting ≤ nestingMembers more + 1 := by
  rw [written, nesting, nestingMembers_textField, nestingMembers_textField]

theorem Item.nesting_written (more : List (String × Json)) (i : Item) :
    (i.written more).nesting ≤ nestingMembers more + 4 := by
  have hlocations := nestingElements_map_le _ (LocationInfo.nesting_written more) i.locations
  have hcapabilities :=
    nestingElements_map_le _ (LooseCapability.nesting_written more) i.capabilities
  rw [written, nesting, nestingMembers_textField, nestingMembers_textField, nestingMembers,
    nestingMembers, nesting, nesting]
  omega

theorem Page.nesting_written (more : List (String × Json)) (p : Page) :
    (p.written more).nesting ≤ nestingMembers more + 6 := by
  have hitems := nestingElements_map_le _ (Item.nesting_written more) p.items
  rw [written, nesting, nestingMembers, nestingMembers_textField, nesting]
  omega

/-- A page is decoded from the bytes of its text. -/
theorem Page.ofBody?_written (h : Skipped more) (p : Page) :
    ofBody? (Text.bytes (p.written more).pretty) = some p := by
  have hnesting := nesting_written more p
  have hshallow := h.shallow
  rw [ofBody?, Json.readBytes_bytes, Json.readText_pretty (p.integral_written h.integral) (by omega),
    Option.bind_some, p.read?_written h]

end ClusterGate.Inventory
