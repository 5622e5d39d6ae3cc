import ClusterGate.Proofs.Engine.Told
import ClusterGate.Proofs.Sku.FailedLookup
import ClusterGate.Proofs.Text.Word

/-!
# What the answer to a query rests on

A query about an instance type looks at the SKU of this name that its region lists last, and in it at
the first pair of each capability that it asks for. Nothing else in the listing has a part in the
answer. A number is never made up, and the typed record says what the single queries say. Main
statement: `Inquiry.isolated_of_listed`.
-/

namespace ClusterGate.Sku

open Text (Denotes)

variable {listing listing' : List Sku} {region instanceType name : String} {s s' : Sku}
  {value : Option String}

/-! ### The SKU and the pair that count -/

/-- The SKU has this name, and the listing has none of this name behind it. -/
def LastNamed (listing : List Sku) (instanceType : String) (s : Sku) : Prop :=
  ∃ front back, listing = front ++ s :: back ∧ s.name = instanceType ∧
    ∀ other ∈ back, other.name ≠ instanceType

/-- The value in the first pair with a name, if there is a pair with this name. -/
inductive FirstPair (s : Sku) (name : String) : Option String → Prop where
  | present {front back : List Capability} {value : String}
      (listed : s.capabilities = front ++ ⟨name, value⟩ :: back)
      (first : ∀ c ∈ front, c.name ≠ name) : FirstPair s name (some value)
  | absent (missing : ∀ c ∈ s.capabilities, c.name ≠ name) : FirstPair s name none

theorem LastNamed.name_eq (h : LastNamed listing instanceType s) : s.name = instanceType := by
  obtain ⟨front, back, -, hname, -⟩ := h
  exact hname

theorem get?_of_lastNamed (h : LastNamed listing instanceType s) :
    Dict.get? instanceType (RegionTable.ofListing listing) = some s := by
  obtain ⟨front, back, rfl, hname, hlast⟩ := h
  rw [RegionTable.get?_ofListing, List.find?_eq_some_iff_append]
  refine ⟨beq_iff_eq.mpr hname, back.reverse, front.reverse, by simp, fun other hother => ?_⟩
  have hne := hlast other (List.mem_reverse.mp hother)
  simpa using hne

theorem exists_lastNamed (h : instanceType ∈ listing.map Sku.name) :
    ∃ s, LastNamed listing instanceType s := by
  induction listing with
  | nil => cases h
  | cons first rest ih =>
    by_cases hrest : instanceType ∈ rest.map Sku.name
    · obtain ⟨s, front, back, rfl, hname, hlast⟩ := ih hrest
      exact ⟨s, first :: front, back, rfl, hname, hlast⟩
    · have hname : instanceType = first.name := by
        rw [List.map_cons, List.mem_cons] at h
        exact h.resolve_right hrest
      refine ⟨first, [], rest, rfl, hname.symm, fun other hother heq => hrest ?_⟩
      exact List.mem_map.mpr ⟨other, hother, heq⟩

theorem firstPair_iff : s.FirstPair name value ↔ s.capability? name = value := by
  constructor
  · rintro (@⟨front, back, value, listed, first⟩ | ⟨missing⟩)
    · have hfront : ∀ c ∈ front, ¬(c.name == name) = true := fun c hc => by simpa using first c hc
      rw [capability?, listed, List.find?_append, List.find?_eq_none.mpr hfront, Option.none_or]
      simp
    · have hnone : ∀ c ∈ s.capabilities, ¬(c.name == name) = true :=
        fun c hc => by simpa using missing c hc
      rw [capability?, List.find?_eq_none.mpr hnone, Option.map_none]
  · rintro rfl
    rw [capability?]
    cases hfind : s.capabilities.find? fun c => c.name == name with
    | none =>
      refine .absent fun c hc => ?_
      simpa using List.find?_eq_none.mp hfind c hc
    | some c =>
      obtain ⟨hname, front, back, hlisted, hfirst⟩ := List.find?_eq_some_iff_append.mp hfind
      obtain rfl : c.name = name := beq_iff_eq.mp hname
      refine .present hlisted fun other hother => ?_
      simpa using hfirst other hother

/-- A number of 64 bits where there is one, and otherwise a complaint that has the value. -/
structure Counted (instanceType name : String) (value : Option String)
    (answer : Except GateError Nat) : Prop where
  ok : ∀ n, answer = .ok n ↔ ∃ text, value = some text ∧ Denotes text n ∧ n < 2 ^ 64
  otherwise : (¬∃ text n, value = some text ∧ Denotes text n ∧ n < 2 ^ 64) →
    answer = .error (.invalidResponse instanceType name value)

theorem counted_number (h : s.FirstPair name value) :
    Counted s.name name value (s.number name) := by
  obtain rfl := firstPair_iff.mp h
  have hread : ∀ n, (s.capability? name).bind Text.word? = some n ↔
      ∃ text, s.capability? name = some text ∧ Denotes text n ∧ n < 2 ^ 64 := by
    intro n
    simp only [Option.bind_eq_some_iff, Text.word?_eq_some_iff]
  refine ⟨fun n => ?_, fun hnone => ?_⟩
  · rw [← hread, number]
    cases (s.capability? name).bind Text.word? with
    | none => simp
    | some m => simp
  · cases hword : (s.capability? name).bind Text.word? with
    | none => rw [number, hword]
    | some n =>
      obtain ⟨text, htext⟩ := (hread n).mp hword
      exact absurd ⟨text, n, htext⟩ hnone

namespace Inquiry

/-! ### The answer to a query -/

/-- What a query comes to with the table of a listing. -/
def answer (q : Inquiry) (region instanceType : String) (listing : List Sku) :
    Except GateError q.Answer :=
  (q.program region instanceType).against (RegionTable.ofListing listing)

/-- The capabilities that a query looks at. -/
def names : Inquiry → List String
  | .memory => [Capability.memory]
  | .cpus => [Capability.cpus]
  | .capability name | .support name => [name]
  | .record => [Capability.memory, Capability.cpus, Capability.premiumIo,
      Capability.acceleratedNetworking]
  | .sku | .zones => []

/-- Two SKUs agree in what a query looks at. -/
structure Agree (q : Inquiry) (s s' : Sku) : Prop where
  pairs : ∀ name ∈ q.names, ∃ value, s.FirstPair name value ∧ s'.FirstPair name value
  zones : q = .zones ∨ q = .record → s.zones = s'.zones
  whole : q = .sku → s = s'

/-- The moves of a call that is alone, with an inventory that has this listing. -/
def lone {α : Type} (program : Engine α) (listing : List Sku) : List (Move α) :=
  .enter program :: List.replicate 8 (.go 0 none (some (.ok listing)))

variable {q : Inquiry} {detail : String}

theorem answer_of_refusal (h : q.refusal? region instanceType = some detail) :
    q.answer region instanceType listing = .error (.invalidRequest detail) := by
  rw [answer, program_of_refusal h, Engine.against_done]

theorem answer_eq (h : q.refusal? region instanceType = none) :
    q.answer region instanceType listing =
      q.reply region instanceType (.ok (RegionTable.ofListing listing)) := by
  rw [answer, program_eq h, Engine.against_ask, Engine.against_done]

theorem answer_listed (h : q.refusal? region instanceType = none)
    (hlast : LastNamed listing instanceType s) :
    q.answer region instanceType listing = q.ofSku s := by
  rw [answer_eq h, reply, verdict]
  simp only [get?_of_lastNamed hlast]

theorem refusal?_eq_none (hregion : region ≠ "") (htype : instanceType ≠ "")
    (hname : q.name? ≠ some "") : q.refusal? region instanceType = none := by
  rw [refusal?, if_neg hname, if_neg hregion, if_neg htype]

/-- Every query about an empty region or instance type is refused, and without a look at its listing. -/
theorem answer_unnamed (h : region = "" ∨ instanceType = "") :
    ∃ detail, q.answer region instanceType listing = .error (.invalidRequest detail) := by
  have hrefused : ∃ detail, q.refusal? region instanceType = some detail := by
    rcases h with h | h
    · exact exists_refusal (Or.inl h)
    · exact exists_refusal (Or.inr (Or.inl h))
  obtain ⟨detail, hdetail⟩ := hrefused
  exact ⟨detail, answer_of_refusal hdetail⟩

theorem capability?_eq (h : q.Agree s s') (hname : name ∈ q.names) :
    s.capability? name = s'.capability? name := by
  obtain ⟨value, hs, hs'⟩ := h.pairs name hname
  rw [firstPair_iff.mp hs, firstPair_iff.mp hs']

theorem number_eq (h : q.Agree s s') (hsame : s.name = s'.name) (hname : name ∈ q.names) :
    s.number name = s'.number name := by
  rw [number, number, capability?_eq h hname, hsame]

theorem supports_eq (h : q.Agree s s') (hname : name ∈ q.names) :
    s.supports name = s'.supports name := by
  rw [supports, supports, capability?_eq h hname]

/-- SKUs of one name that agree in what a query looks at give it the same answer. -/
theorem ofSku_eq (h : q.Agree s s') (hsame : s.name = s'.name) : q.ofSku s = q.ofSku s' := by
  cases q with
  | sku => exact congrArg Except.ok (h.whole rfl)
  | memory | cpus => exact number_eq h hsame (by simp [names])
  | capability name => exact congrArg Except.ok (capability?_eq h (by simp [names]))
  | support name => exact congrArg Except.ok (supports_eq h (by simp [names]))
  | record =>
    have hmemory : s.number Capability.memory = s'.number Capability.memory :=
      number_eq h hsame (by simp [names])
    have hcpus : s.number Capability.cpus = s'.number Capability.cpus :=
      number_eq h hsame (by simp [names])
    have hpremium : s.supports Capability.premiumIo = s'.supports Capability.premiumIo :=
      supports_eq h (by simp [names])
    have haccelerated : s.supports Capability.acceleratedNetworking =
        s'.supports Capability.acceleratedNetworking := supports_eq h (by simp [names])
    simp only [ofSku, CapabilityRecord.ofSku, hmemory, hcpus, hpremium, haccelerated, hsame,
      h.zones (Or.inr rfl)]
  | zones => exact congrArg Except.ok (h.zones (Or.inl rfl))

theorem answer_eq_of_agree (hlast : LastNamed listing instanceType s)
    (hlast' : LastNamed listing' instanceType s') (h : q.Agree s s') :
    q.answer region instanceType listing' = q.answer region instanceType listing := by
  cases hrefusal : q.refusal? region instanceType with
  | some detail => rw [answer_of_refusal hrefusal, answer_of_refusal hrefusal]
  | none =>
    rw [answer_listed hrefusal hlast, answer_listed hrefusal hlast',
      ofSku_eq h (hlast.name_eq.trans hlast'.name_eq.symm)]

/-! ### The typed record -/

/-- The typed record says what the single queries say, and fails as the first of them that fails. -/
structure Typed (region instanceType : String) (listing : List Sku) : Prop where
  ok : (∃ r, answer .record region instanceType listing = .ok r) ↔
    (∃ m, answer .memory region instanceType listing = .ok m) ∧
      ∃ n, answer .cpus region instanceType listing = .ok n
  fields : ∀ r, answer .record region instanceType listing = .ok r →
    answer .memory region instanceType listing = .ok r.memoryGb ∧
      answer .cpus region instanceType listing = .ok r.cpus ∧
      answer (.support Capability.premiumIo) region instanceType listing = .ok r.premiumStorage ∧
      answer (.support Capability.acceleratedNetworking) region instanceType listing =
        .ok r.acceleratedNetworking ∧
      answer .zones region instanceType listing = .ok r.zones ∧ r.instanceType = instanceType
  memory : ∀ error, answer .memory region instanceType listing = .error error →
    answer .record region instanceType listing = .error error
  cpus : ∀ m error, answer .memory region instanceType listing = .ok m →
    answer .cpus region instanceType listing = .error error →
    answer .record region instanceType listing = .error error

theorem answer_record (region : String) (hlast : LastNamed listing instanceType s) :
    answer .record region instanceType listing = do
      let memory ← answer .memory region instanceType listing
      let cpus ← answer .cpus region instanceType listing
      let premium ← answer (.support Capability.premiumIo) region instanceType listing
      let accelerated ←
        answer (.support Capability.acceleratedNetworking) region instanceType listing
      let zones ← answer .zones region instanceType listing
      return ⟨instanceType, memory, cpus, premium, accelerated, zones⟩ := by
  by_cases hnamed : region = "" ∨ instanceType = ""
  · -- a refusal does not depend on what is asked for
    obtain ⟨detail, hmemory⟩ := exists_refusal (q := .memory) (hnamed.imp_right Or.inl)
    have hrecord : Inquiry.record.refusal? region instanceType = some detail := hmemory
    rw [answer_of_refusal hrecord, answer_of_refusal hmemory]
    rfl
  · push Not at hnamed
    obtain ⟨hregion, htype⟩ := hnamed
    have hanswer : ∀ q : Inquiry, q.name? ≠ some "" →
        q.answer region instanceType listing = q.ofSku s :=
      fun q hname => answer_listed (refusal?_eq_none hregion htype hname) hlast
    rw [hanswer .record (by decide), hanswer .memory (by decide), hanswer .cpus (by decide),
      hanswer (.support Capability.premiumIo) (by decide),
      hanswer (.support Capability.acceleratedNetworking) (by decide), hanswer .zones (by decide)]
    rw [← hlast.name_eq]
    rfl

/-- Whoever gets the memory is not refused what every SKU has. -/
theorem answers_of_memory (hlast : LastNamed listing instanceType s) {m : Nat}
    (hmemory : answer .memory region instanceType listing = .ok m) :
    answer (.support Capability.premiumIo) region instanceType listing =
        .ok (s.supports Capability.premiumIo) ∧
      answer (.support Capability.acceleratedNetworking) region instanceType listing =
        .ok (s.supports Capability.acceleratedNetworking) ∧
      answer .zones region instanceType listing = .ok s.zones := by
  have hnamed : ¬(region = "" ∨ instanceType = "") := by
    intro hnamed
    obtain ⟨detail, hrefused⟩ : ∃ detail, answer .memory region instanceType listing =
        .error (.invalidRequest detail) := answer_unnamed hnamed
    rw [hrefused] at hmemory
    cases hmemory
  push Not at hnamed
  obtain ⟨hregion, htype⟩ := hnamed
  have hanswer : ∀ q : Inquiry, q.name? ≠ some "" →
      q.answer region instanceType listing = q.ofSku s :=
    fun q hname => answer_listed (refusal?_eq_none hregion htype hname) hlast
  exact ⟨hanswer _ (by decide), hanswer _ (by decide), hanswer _ (by decide)⟩

theorem typed (hlast : LastNamed listing instanceType s) : Typed region instanceType listing := by
  have hrecord := answer_record region hlast
  cases hmemory : answer .memory region instanceType listing with
  | error e =>
    have hfailed : answer .record region instanceType listing = .error e := by
      rw [hrecord, hmemory]
      rfl
    constructor <;> simp [hfailed, hmemory]
  | ok m =>
    obtain ⟨hpremium, haccelerated, hzones⟩ := answers_of_memory hlast hmemory
    cases hcpus : answer .cpus region instanceType listing with
    | error e =>
      have hfailed : answer .record region instanceType listing = .error e := by
        rw [hrecord, hmemory, hcpus]
        rfl
      constructor <;> simp [hfailed, hmemory, hcpus]
    | ok n =>
      have hok : answer .record region instanceType listing = .ok ⟨instanceType, m, n,
          s.supports Capability.premiumIo, s.supports Capability.acceleratedNetworking, s.zones⟩ := by
        rw [hrecord, hmemory, hcpus, hpremium, haccelerated, hzones]
        rfl
      constructor <;> simp [hok, hmemory, hcpus, hpremium, haccelerated, hzones]

/-! ### Calls -/

/-- Told the table of a listing, by the inventory or by the cache, a query has its answer at once. -/
theorem result?_of_tells {α : Type} {f : q.Answer → α} {earlier : List (Move α)} {id : LookupId}
    {interrupt : Option Interrupt} {told : Option (Except StorageError (List Sku))}
    (hcall : (Traffic.after earlier).program? id = some (q.wanted region instanceType f))
    (htells : (Traffic.after earlier).Tells id interrupt told (.ok (RegionTable.ofListing listing)))
    (later : List (Move α)) :
    (Traffic.after (earlier ++ .go id interrupt told :: later)).result? id =
      some ((q.answer region instanceType listing).map f) := by
  obtain ⟨name, stage, next, here, hrunning, -⟩ := htells.told
  have hfollows := Traffic.attained_of_call here hcall
  cases hrefusal : q.refusal? region instanceType with
  | some detail =>
    rw [wanted_of_refusal hrefusal] at hfollows
    exact nomatch hfollows.eq_of_done
  | none =>
    rw [wanted_eq hrefusal] at hfollows
    have hnext : next (.ok (RegionTable.ofListing listing)) =
        .done ((q.answer region instanceType listing).map f) := by
      rw [answer_eq hrefusal]
      cases hfollows with
      | refl => rfl
      | answer admitted rest => exact nomatch rest.eq_of_done
    have hresult : ((Traffic.after earlier).step (.go id interrupt told)).result? id =
        some ((q.answer region instanceType listing).map f) := by
      rw [Traffic.result?, hrunning, hnext]
      rfl
    rw [Traffic.after_append, Traffic.run, List.foldl_cons, ← Traffic.run]
    exact Traffic.result?_run hresult later

/-- A call that is alone fetches the listing and has the answer that goes with it. -/
theorem result?_lone :
    (Traffic.after (lone (q.program region instanceType) listing)).result? 0 =
      some (q.answer region instanceType listing) := by
  cases hrefusal : q.refusal? region instanceType with
  | some detail =>
    rw [program_of_refusal hrefusal, answer_of_refusal hrefusal]
    rfl
  | none =>
    rw [program_eq hrefusal, answer_eq hrefusal]
    simp [lone, Traffic.after, Traffic.run, List.replicate, Traffic.step, Traffic.progress?,
      Traffic.resume, RegionCache.step, RegionCache.stored?, RegionCache.holds, Dict.get?,
      RegionCache.join, RegionCache.queue, Dict.insert, guarded, Progress.after, Traffic.result?,
      Progress.result?]

/-- What is said of the queries about an instance type, given the listing of its region and the SKU in
it that counts. -/
structure Isolated (region instanceType : String) (listing : List Sku) (s : Sku) : Prop where
  last : LastNamed listing instanceType s
  fetched : ∀ q : Inquiry, (Traffic.after (lone (q.program region instanceType) listing)).result? 0 =
    some (q.answer region instanceType listing)
  told : ∀ (q : Inquiry) (α : Type) (f : q.Answer → α) earlier id interrupt told later,
    (Traffic.after earlier).program? id = some (q.wanted region instanceType f) →
    (Traffic.after earlier).Tells id interrupt told (.ok (RegionTable.ofListing listing)) →
    (Traffic.after (earlier ++ .go id interrupt told :: later)).result? id =
      some ((q.answer region instanceType listing).map f)
  agreeing : ∀ (q : Inquiry) listing' s', LastNamed listing' instanceType s' → q.Agree s s' →
    q.answer region instanceType listing' = q.answer region instanceType listing
  unnamed : region = "" ∨ instanceType = "" → ∀ q : Inquiry,
    ∃ detail, q.answer region instanceType listing = .error (.invalidRequest detail)
  memory : region ≠ "" → instanceType ≠ "" → ∀ value, s.FirstPair Capability.memory value →
    Counted instanceType Capability.memory value (answer .memory region instanceType listing)
  cpus : region ≠ "" → instanceType ≠ "" → ∀ value, s.FirstPair Capability.cpus value →
    Counted instanceType Capability.cpus value (answer .cpus region instanceType listing)
  typed : Typed region instanceType listing

/-- Every instance type that is listed is listed last by some SKU, and by this one its queries are
answered. -/
theorem isolated_of_listed (region : String) (h : instanceType ∈ listing.map Sku.name) :
    ∃ s, Isolated region instanceType listing s := by
  obtain ⟨s, hlast⟩ := exists_lastNamed h
  have hcounted : ∀ {q : Inquiry} {name value}, region ≠ "" → instanceType ≠ "" →
      s.FirstPair name value → q.name? ≠ some "" → q.answer region instanceType listing = q.ofSku s ∧
        Counted instanceType name value (s.number name) := by
    intro q name value hregion htype hpair hname
    refine ⟨answer_listed (refusal?_eq_none hregion htype hname) hlast, ?_⟩
    rw [← hlast.name_eq]
    exact counted_number hpair
  refine ⟨s, hlast, fun q => result?_lone, ?told, ?agreeing, fun hnamed q => answer_unnamed hnamed,
    ?memory, ?cpus, typed hlast⟩
  case told =>
    intro q α f earlier id interrupt told later hcall htells
    exact result?_of_tells hcall htells later
  case agreeing => exact fun q listing' s' hlast' hagree => answer_eq_of_agree hlast hlast' hagree
  case memory =>
    intro hregion htype value hpair
    obtain ⟨hanswer, hnumber⟩ := hcounted (q := .memory) hregion htype hpair (by decide)
    rw [hanswer]
    exact hnumber
  case cpus =>
    intro hregion htype value hpair
    obtain ⟨hanswer, hnumber⟩ := hcounted (q := .cpus) hregion htype hpair (by decide)
    rw [hanswer]
    exact hnumber

/-- A listing with two SKUs of one name, with two pairs of one name, and with values that are no
numbers. -/
def crowded : List Sku :=
  [{ name := "D4", capabilities := [⟨"MemoryGB", "lots"⟩] },
   { name := "D8", capabilities := [⟨"MemoryGB", "18446744073709551616"⟩] },
   { name := "D4"
     zones := ["1"]
     capabilities := [⟨"PremiumIO", "TRUE"⟩, ⟨"MemoryGB", "+16"⟩, ⟨"vCPUs", "4"⟩, ⟨"MemoryGB", "few"⟩] }]

theorem isolated_of_listed_crowded :
    "D4" ∈ crowded.map Sku.name ∧ ∃ s, Isolated "westeurope" "D4" crowded s := by
  have hlisted : "D4" ∈ crowded.map Sku.name := by decide
  exact ⟨hlisted, isolated_of_listed "westeurope" hlisted⟩

example : answer .record "westeurope" "D4" crowded = .ok ⟨"D4", 16, 4, true, false, ["1"]⟩ := rfl

example : answer .memory "westeurope" "D8" crowded =
    .error (.invalidResponse "D8" "MemoryGB" (some "18446744073709551616")) := rfl

/-- A SKU without a name may be listed, and have its numbers, but cannot be asked for. -/
theorem nameless_refused :
    let nameless : Sku := { name := "", capabilities := [⟨"MemoryGB", "16"⟩, ⟨"vCPUs", "4"⟩] }
    let memory := Inquiry.program "westeurope" "" .memory
    LastNamed [nameless] "" nameless ∧ nameless.FirstPair Capability.memory (some "16") ∧
      Denotes "16" 16 ∧ 16 < 2 ^ 64 ∧ (Traffic.after (lone memory [nameless])).result? 0 =
        some (.error (.invalidRequest "instance type can't be empty")) := by
  have hsixteen : Denotes "16" 16 ∧ 16 < 2 ^ 64 := Text.word?_eq_some_iff.mp rfl
  exact ⟨⟨[], [], rfl, rfl, nofun⟩, firstPair_iff.mpr rfl, hsixteen.1, hsixteen.2, rfl⟩

end Inquiry

end ClusterGate.Sku
