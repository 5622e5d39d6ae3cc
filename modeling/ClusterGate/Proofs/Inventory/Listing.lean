import ClusterGate.Inventory.Listing
import ClusterGate.Proofs.Dict
import ClusterGate.Proofs.Inventory.Page

/-!
# What a listing calls for and what it returns

A listing calls for the first page and then for each link, one page after the other, until a page has
no link or a call fails. It returns all machine sizes of all pages, or the first failure. All this
holds whatever carries the calls out. Main statement: `list_followed`.
-/

namespace ClusterGate.Inventory

/-! ### Items -/

namespace Item

def isNamedMachine (i : Item) : Bool := i.resourceType == some "virtualMachines" && i.name.isSome

/-- The SKU of an item: its capabilities are those with a name and a value, its zones those of the
places in the region. -/
structure Becomes (region : String) (i : Item) (s : Sku) : Prop where
  name : i.name = some s.name
  capabilities : s.capabilities.map (fun c => (some c.name, some c.value)) =
    (i.capabilities.map fun c => (c.name, c.value)).filter fun c => c.1.isSome && c.2.isSome
  zones : ∀ zone, zone ∈ s.zones ↔ ∃ info ∈ i.locations, zone ∈ info.zones ∧
    ∃ location, info.location = some location ∧ Text.sameIgnoringCase location region = true
  ascending : s.zones.Pairwise (· < ·)

variable {region zone : String} {i : Item} {s : Sku}

theorem isIn_iff {info : LocationInfo} : isIn region info = true ↔
    ∃ location, info.location = some location ∧ Text.sameIgnoringCase location region = true := by
  unfold isIn
  cases info.location with
  | none => simp
  | some location => simp

theorem mem_zonesIn : zone ∈ i.zonesIn region ↔ ∃ info ∈ i.locations, zone ∈ info.zones ∧
    ∃ location, info.location = some location ∧ Text.sameIgnoringCase location region = true := by
  rw [zonesIn, mem_sortedSet, List.mem_flatMap]
  constructor
  · rintro ⟨info, hinfo, hzone⟩
    obtain ⟨hmem, hin⟩ := List.mem_filter.mp hinfo
    exact ⟨info, hmem, hzone, isIn_iff.mp hin⟩
  · rintro ⟨info, hmem, hzone, hin⟩
    exact ⟨info, List.mem_filter.mpr ⟨hmem, isIn_iff.mpr hin⟩, hzone⟩

theorem complete_capabilities (cs : List LooseCapability) :
    (cs.filterMap LooseCapability.complete?).map (fun c => (some c.name, some c.value)) =
      (cs.map fun c => (c.name, c.value)).filter fun c => c.1.isSome && c.2.isSome := by
  induction cs with
  | nil => rfl
  | cons c rest ih =>
    obtain ⟨name, value⟩ := c
    cases name with
    | none => exact ih
    | some name =>
      cases value with
      | none => exact ih
      | some value => exact congrArg ((some name, some value) :: ·) ih

theorem sku?_of_not_machine (h : i.isNamedMachine = false) : i.sku? region = none := by
  unfold isNamedMachine at h
  unfold sku?
  split
  next htype =>
    have hname : i.name = none := by simpa [htype, machineType] using h
    rw [hname]
    rfl
  next => rfl

theorem sku?_of_machine (h : i.isNamedMachine = true) :
    ∃ s, i.sku? region = some s ∧ i.Becomes region s := by
  obtain ⟨htype, hname⟩ := Bool.and_eq_true_iff.mp h
  obtain ⟨name, hname⟩ := Option.isSome_iff_exists.mp hname
  refine ⟨⟨name, i.zonesIn region, i.capabilities.filterMap LooseCapability.complete?⟩, ?_, ?_⟩
  · have hmachine : i.resourceType = some machineType := beq_iff_eq.mp htype
    rw [sku?, if_pos hmachine, hname]
    rfl
  · exact ⟨hname, complete_capabilities _, fun _ => mem_zonesIn, sortedSet_sorted _⟩

/-- The SKUs of several items are those of the machine sizes among them, in order. -/
theorem becomes_filterMap (items : List Item) : List.Forall₂ (Becomes region)
    (items.filter isNamedMachine) (items.filterMap (sku? region)) := by
  induction items with
  | nil => exact .nil
  | cons i rest ih =>
    cases h : i.isNamedMachine with
    | false =>
      rw [List.filter_cons_of_neg (Bool.eq_false_iff.mp h),
        List.filterMap_cons_none (sku?_of_not_machine h)]
      exact ih
    | true =>
      obtain ⟨s, hs, hbecomes⟩ : ∃ s, i.sku? region = some s ∧ i.Becomes region s :=
        sku?_of_machine h
      rw [List.filter_cons_of_pos h, List.filterMap_cons_some hs]
      exact .cons hbecomes ih

end Item

/-! ### Answers -/

/-- The answer holds a page: its status means success and its whole body is the page. -/
def Response.Holds (r : Response) (page : Page) : Prop :=
  ∃ status body, r = .answer status body true ∧ 200 ≤ status ∧ status < 300 ∧ status ≠ 204 ∧
    Page.ofBody? body = some page

/-- How an answer fails. A status that is no success is named. -/
inductive Response.Fails : Response → StorageError → Prop where
  | hangup (detail : String) : Fails .hangup (.unavailable detail)
  | misunderstood {status : Nat} {body : List UInt8} {complete : Bool} (detail : String)
      (unfinal : Status.isFinal status = false) :
      Fails (.answer status body complete) (.unavailable detail)
  | refused {status : Nat} {body : List UInt8} {complete : Bool}
      (final : Status.isFinal status = true) (refusal : status < 200 ∨ 300 ≤ status) :
      Fails (.answer status body complete)
        (.unavailable ("inventory answered " ++ (toString status ++ " " ++ Status.phrase status)))
  | brokenOff {status : Nat} {body : List UInt8} (detail : String)
      (success : 200 ≤ status ∧ status < 300) :
      Fails (.answer status body false) (.decode detail)
  | unreadable {status : Nat} {body : List UInt8} {complete : Bool} (detail : String)
      (success : 200 ≤ status ∧ status < 300) (unread : status = 204 ∨ Page.ofBody? body = none) :
      Fails (.answer status body complete) (.decode detail)

namespace Response

variable {r : Response} {page : Page} {e : StorageError} {body : List UInt8}

theorem page_of_body_error (h : r.body = .error e) : r.page = .error e := by
  unfold Response.page
  rw [h]
  rfl

theorem page_of_body (h : r.body = .ok body) :
    r.page = match Page.ofBody? body with
      | some page => .ok page
      | none => .error (.decode "not a page of SKUs") := by
  unfold Response.page
  rw [h]
  rfl

theorem ofBody?_nil : Page.ofBody? [] = none := by decide +kernel

theorem isSuccess_iff {status : Nat} :
    Status.isSuccess status = true ↔ 200 ≤ status ∧ status < 300 := by
  simp [Status.isSuccess]

theorem fails_of_body_error (h : r.body = .error e) : r.Fails e := by
  cases r with
  | hangup =>
    cases h
    exact .hangup _
  | answer status bytes complete =>
    unfold Response.body at h
    simp only at h
    split_ifs at h with hfinal hsuccess hbodiless hcomplete
    · cases h
      exact .misunderstood _ (by simpa using hfinal)
    · cases h
      have hrefusal : ¬(200 ≤ status ∧ status < 300) := by
        rw [← isSuccess_iff]
        simpa using hsuccess
      exact .refused (by simpa using hfinal) (by omega)
    · cases h
      obtain rfl : complete = false := Bool.eq_false_iff.mpr hcomplete
      exact .brokenOff _ (isSuccess_iff.mp (by simpa using hsuccess))

/-- A body that is read is that of a success; an answer that has none counts as an empty one. -/
theorem answer_of_body (h : r.body = .ok body) :
    ∃ status bytes complete, r = .answer status bytes complete ∧ (200 ≤ status ∧ status < 300) ∧
      (status = 204 ∧ body = [] ∨ status ≠ 204 ∧ body = bytes ∧ complete = true) := by
  cases r with
  | hangup => cases h
  | answer status bytes complete =>
    refine ⟨status, bytes, complete, rfl, ?_⟩
    unfold Response.body at h
    simp only at h
    split_ifs at h with hfinal hsuccess hbodiless hcomplete
    · cases h
      exact ⟨isSuccess_iff.mp (by simpa using hsuccess),
        Or.inl ⟨by simpa [Status.isBodiless] using hbodiless, rfl⟩⟩
    · cases h
      exact ⟨isSuccess_iff.mp (by simpa using hsuccess),
        Or.inr ⟨by simpa [Status.isBodiless] using hbodiless, rfl, hcomplete⟩⟩

theorem holds_of_page (h : r.page = .ok page) : r.Holds page := by
  cases hbody : r.body with
  | error e =>
    rw [page_of_body_error hbody] at h
    cases h
  | ok body =>
    rw [page_of_body hbody] at h
    obtain ⟨status, bytes, complete, rfl, hsuccess, ⟨_, rfl⟩ | ⟨hbodied, rfl, rfl⟩⟩ :=
      answer_of_body hbody
    · rw [ofBody?_nil] at h
      cases h
    · cases hpage : Page.ofBody? body with
      | none =>
        rw [hpage] at h
        cases h
      | some found =>
        rw [hpage] at h
        cases h
        exact ⟨status, body, rfl, hsuccess.1, hsuccess.2, hbodied, hpage⟩

theorem fails_of_page (h : r.page = .error e) : r.Fails e := by
  cases hbody : r.body with
  | error e' =>
    rw [page_of_body_error hbody] at h
    cases h
    exact fails_of_body_error hbody
  | ok body =>
    rw [page_of_body hbody] at h
    obtain ⟨status, bytes, complete, rfl, hsuccess, hbytes⟩ := answer_of_body hbody
    split at h
    · cases h
    next hpage =>
      cases h
      refine .unreadable _ hsuccess ?_
      rcases hbytes with ⟨hbodiless, _⟩ | ⟨_, rfl, _⟩
      · exact Or.inl hbodiless
      · exact Or.inr hpage

/-- No answer both holds a page and fails. -/
theorem not_holds_of_fails (h : r.Fails e) : ¬r.Holds page := by
  rintro ⟨status, body, rfl, hlow, hhigh, hbodied, hpage⟩
  cases h with
  | misunderstood _ hunfinal =>
    have hfinal : Status.isFinal status = true := by
      simp only [Status.isFinal, Bool.or_eq_true, Bool.and_eq_true, decide_eq_true_eq]
      exact Or.inr ⟨hlow, by omega⟩
    rw [hfinal] at hunfinal
    contradiction
  | refused _ hrefusal => omega
  | unreadable _ _ hunread =>
    rcases hunread with hbodiless | hnone
    · exact hbodied hbodiless
    · rw [hpage] at hnone
      contradiction

end Response

/-! ### Listings -/

/-- The answer to the call of a number; nothing is found when the script has run out. -/
def answerTo (script : List Response) (n : Nat) : Response := script[n]?.getD notFound

/-- The calls made when pages are read from a call on: this call, and one for the link of each page. -/
def callsFrom (first : Call) (pages : List Page) : List Call :=
  first :: (pages.filterMap Page.next?).map fun link => ⟨link, [], first.token⟩

/-- What comes of following the links from a call on, by the pages that are read. -/
structure Followed (usable : Call → Bool) (region : String) (first : Call) (script : List Response)
    (pages : List Page) (result : Except StorageError (List Sku)) (calls : List Call) : Prop where
  called : calls = callsFrom first pages
  /-- Each page is the answer to the call of its number. -/
  read : ∀ n page, pages[n]? = some page → (answerTo script n).Holds page
  made : ∀ n call, n < pages.length → calls[n]? = some call → usable call = true
  /-- The last page is the first one without a link, and all SKUs are returned; or all pages have
  links, and the first failure is returned. -/
  ended :
    (∃ front last skus, pages = front ++ [last] ∧
      (∀ page ∈ front, ∃ link, page.nextLink = some link ∧ link ≠ "") ∧
      (last.nextLink = none ∨ last.nextLink = some "") ∧ result = .ok skus ∧
      List.Forall₂ (Item.Becomes region)
        ((pages.flatMap Page.items).filter Item.isNamedMachine) skus) ∨
    ((∀ page ∈ pages, ∃ link, page.nextLink = some link ∧ link ≠ "") ∧
      ∃ call e, calls[pages.length]? = some call ∧ result = .error e ∧
        (usable call = false ∧ (∃ detail, e = .unavailable detail) ∨
          usable call = true ∧ (answerTo script pages.length).Fails e))

section Followed

variable {c : Config} {usable : Call → Bool} {region filter link : String} {call : Call}
  {response : Response} {script rest : List Response} {page : Page} {pages : List Page}
  {result : Except StorageError (List Sku)} {calls : List Call} {e : StorageError}

theorem Page.next?_eq_some_iff : page.next? = some link ↔ page.nextLink = some link ∧ link ≠ "" := by
  rw [next?, Option.filter_eq_some_iff, decide_eq_true_eq]

theorem Page.next?_eq_none_iff : page.next? = none ↔ page.nextLink = none ∨ page.nextLink = some "" := by
  rw [next?, Option.filter_eq_none_iff]
  cases page.nextLink with
  | none => simp
  | some link => simp

theorem callsFrom_cons (h : page.next? = some link) :
    callsFrom call (page :: pages) = call :: callsFrom ⟨link, [], call.token⟩ pages := by
  rw [callsFrom, List.filterMap_cons_some h, List.map_cons, callsFrom]

theorem followed_unusable (h : usable call = false) :
    Followed usable region call script [] (.error unusableCall) [call] where
  called := rfl
  read n page hpage := by cases hpage
  made n u hn := absurd hn (Nat.not_lt_zero n)
  ended := Or.inr ⟨fun _ h => absurd h List.not_mem_nil, call, _, rfl, rfl, Or.inl ⟨h, _, rfl⟩⟩

theorem followed_failed (h : usable call = true) (hfails : (answerTo script 0).Fails e) :
    Followed usable region call script [] (.error e) [call] where
  called := rfl
  read n page hpage := by cases hpage
  made n u hn := absurd hn (Nat.not_lt_zero n)
  ended := Or.inr ⟨fun _ h => absurd h List.not_mem_nil, call, e, rfl, rfl, Or.inr ⟨h, hfails⟩⟩

theorem followed_last (h : usable call = true) (hholds : (answerTo script 0).Holds page)
    (hlast : page.next? = none) :
    Followed usable region call script [page] (.ok (page.skus region)) [call] where
  called := by
    rw [callsFrom, List.filterMap_cons_none hlast]
    rfl
  read n p hp := by
    cases n with
    | zero =>
      cases hp
      exact hholds
    | succ n => cases hp
  made n u hn hu := by
    obtain rfl : n = 0 := Nat.lt_one_iff.mp hn
    cases hu
    exact h
  ended := by
    refine Or.inl ⟨[], page, _, rfl, fun _ h => absurd h List.not_mem_nil,
      Page.next?_eq_none_iff.mp hlast, rfl, ?_⟩
    rw [List.flatMap_singleton]
    exact Item.becomes_filterMap page.items

theorem Followed.cons (hrest : Followed usable region ⟨link, [], call.token⟩ rest pages result calls)
    (h : usable call = true) (hholds : response.Holds page) (hlink : page.next? = some link) :
    Followed usable region call (response :: rest) (page :: pages)
      (result.map (page.skus region ++ ·)) (call :: calls) where
  called := by
    rw [callsFrom_cons hlink, hrest.called]
  read n p hp := by
    cases n with
    | zero =>
      cases hp
      exact hholds
    | succ n => exact hrest.read n p hp
  made n u hn hu := by
    cases n with
    | zero =>
      cases hu
      exact h
    | succ n => exact hrest.made n u (Nat.lt_of_succ_lt_succ hn) hu
  ended := by
    have hmore : ∃ link, page.nextLink = some link ∧ link ≠ "" :=
      ⟨link, Page.next?_eq_some_iff.mp hlink⟩
    rcases hrest.ended with ⟨front, last, skus, rfl, hfront, hlast, rfl, hskus⟩ | ⟨hall, u, e, hu, rfl, hfailed⟩
    · refine Or.inl ⟨page :: front, last, page.skus region ++ skus, rfl, ?_, hlast, rfl, ?_⟩
      · exact List.forall_mem_cons.mpr ⟨hmore, hfront⟩
      · rw [List.flatMap_cons, List.filter_append]
        exact List.rel_append (Item.becomes_filterMap page.items) hskus
    · exact Or.inr ⟨List.forall_mem_cons.mpr ⟨hmore, hall⟩, u, e, hu, rfl, hfailed⟩

/-- One call cannot be made, fails, or brings a page. -/
theorem fetch_cases (usable : Call → Bool) (region : String) (call : Call) (response : Response) :
    (usable call = false ∧ fetch usable region call response = .error unusableCall) ∨
    usable call = true ∧
      ((∃ e, response.Fails e ∧ fetch usable region call response = .error e) ∨
        ∃ page, response.Holds page ∧
          fetch usable region call response = .ok (page.skus region, page.next?)) := by
  unfold fetch
  cases husable : usable call with
  | false => exact Or.inl ⟨rfl, rfl⟩
  | true =>
    refine Or.inr ⟨rfl, ?_⟩
    cases hpage : response.page with
    | error e => exact Or.inl ⟨e, Response.fails_of_page hpage, rfl⟩
    | ok page => exact Or.inr ⟨page, Response.holds_of_page hpage, rfl⟩

theorem listFrom_followed (c : Config) (usable : Call → Bool) (region : String)
    (script : List Response) (call : Call) (htoken : call.token = c.token) :
    ∃ pages, Followed usable region call script pages (listFrom c usable region call script).1
      (listFrom c usable region call script).2 := by
  induction script generalizing call with
  | nil =>
    rw [listFrom]
    rcases fetch_cases usable region call notFound with
      ⟨hunusable, hfetch⟩ | ⟨husable, ⟨e, hfails, hfetch⟩ | ⟨page, hholds, _⟩⟩
    · rw [hfetch]
      exact ⟨[], followed_unusable hunusable⟩
    · rw [hfetch]
      exact ⟨[], followed_failed husable hfails⟩
    · obtain ⟨status, body, hanswer, _, hhigh, _⟩ := hholds
      cases hanswer
      omega
  | cons response rest ih =>
    rw [listFrom]
    rcases fetch_cases usable region call response with
      ⟨hunusable, hfetch⟩ | ⟨husable, ⟨e, hfails, hfetch⟩ | ⟨page, hholds, hfetch⟩⟩
    · rw [hfetch]
      exact ⟨[], followed_unusable hunusable⟩
    · rw [hfetch]
      exact ⟨[], followed_failed husable hfails⟩
    · rw [hfetch]
      cases hnext : page.next? with
      | none => exact ⟨[page], followed_last husable hholds hnext⟩
      | some link =>
        obtain ⟨pages, hpages⟩ := ih (c.linkCall link) rfl
        rw [Config.linkCall, ← htoken] at hpages
        simp only [Config.linkCall, ← htoken]
        exact ⟨page :: pages, hpages.cons husable hholds hnext⟩

theorem length_links (h : ∀ page ∈ pages, ∃ link, page.nextLink = some link ∧ link ≠ "") :
    (pages.filterMap Page.next?).length = pages.length := by
  rw [List.filterMap_length_eq_length]
  intro page hpage
  obtain ⟨link, hlink⟩ := h page hpage
  rw [Page.next?_eq_some_iff.mpr hlink]
  rfl

/-- A listing succeeds if and only if every call does. -/
theorem Followed.ok_iff (h : Followed usable region call script pages result calls) :
    (∃ skus, result = .ok skus) ↔ ∀ n u, calls[n]? = some u →
      usable u = true ∧ ∃ page, (answerTo script n).Holds page := by
  rcases h.ended with ⟨front, last, skus, hpages, hfront, hlast, rfl, _⟩ |
    ⟨hall, u, e, hu, rfl, hfailed⟩
  · refine iff_of_true ⟨skus, rfl⟩ fun n u hu => ?_
    have hlength : calls.length = pages.length := by
      rw [h.called, callsFrom, hpages, List.filterMap_append,
        List.filterMap_cons_none (Page.next?_eq_none_iff.mpr hlast), List.filterMap_nil,
        List.append_nil, List.length_cons, List.length_map, length_links hfront, List.length_append]
      rfl
    have hn : n < pages.length := hlength ▸ (List.getElem?_eq_some_iff.mp hu).1
    exact ⟨h.made n u hn hu, _, h.read n _ (List.getElem?_eq_getElem hn)⟩
  · refine iff_of_false (fun ⟨_, h⟩ => nomatch h) fun hsuccess => ?_
    obtain ⟨husable, page, hholds⟩ := hsuccess _ u hu
    rcases hfailed with ⟨hunusable, _⟩ | ⟨_, hfails⟩
    · rw [hunusable] at husable
      contradiction
    · exact Response.not_holds_of_fails hfails hholds

/-- The endpoint is this text with slashes behind it, and the text does not end in one. -/
structure IsBase (base endpoint : String) : Prop where
  slashes : ∃ n, endpoint.toList = base.toList ++ List.replicate n '/'
  bare : base.toList.getLast? ≠ some '/'

theorem isBase_skusUrl (c : Config) : ∃ base, IsBase base c.endpoint ∧ c.skusUrl =
    base ++ "/subscriptions/" ++ c.subscriptionId ++ "/providers/Microsoft.Compute/skus" := by
  refine ⟨_, ⟨?_, ?_⟩, rfl⟩
  · have hall := List.all_eq_true.mp (List.all_takeWhile (p := (· == '/')) (l := c.endpoint.toList.reverse))
    have hslashes : c.endpoint.toList.reverse.takeWhile (· == '/') =
        List.replicate (c.endpoint.toList.reverse.takeWhile (· == '/')).length '/' :=
      List.eq_replicate_iff.mpr ⟨rfl, fun d hd => beq_iff_eq.mp (hall d hd)⟩
    have hparts := List.takeWhile_append_dropWhile (p := (· == '/')) (l := c.endpoint.toList.reverse)
    refine ⟨(c.endpoint.toList.reverse.takeWhile (· == '/')).length, ?_⟩
    rw [String.toList_ofList, ← List.reverse_replicate, ← hslashes, ← List.reverse_append, hparts,
      List.reverse_reverse]
  · rw [String.toList_ofList, List.getLast?_reverse]
    intro hhead
    have hnot := List.head?_dropWhile_not (· == '/') c.endpoint.toList.reverse
    rw [hhead] at hnot
    simp at hnot

end Followed

/-! ### Requests -/

/-- A call becomes a request if its URL can be read and its token can stand in a header. -/
theorem Call.request_iff (call : Call) : (∃ r, call.request? = some r) ↔
    (∃ url, Url.parse? call.url = some url) ∧
      ∀ token, call.token = some token → isHeaderValue token = true := by
  have htoken : call.token.all isHeaderValue = true ↔
      ∀ token, call.token = some token → isHeaderValue token = true := by
    cases call.token <;> simp
  rw [← htoken, Call.request?]
  cases Url.parse? call.url with
  | none => simp
  | some url => by_cases h : call.token.all isHeaderValue = true <;> simp [h]

/-- The request of a call goes where the URL of the call says, and carries its token. -/
theorem Call.request_carries {call : Call} {r : Request} (h : call.request? = some r) :
    (∃ url, Url.parse? call.url = some url ∧ r.secure = url.secure ∧ r.host = url.host ∧
      r.port = url.port) ∧
    ∀ token, call.token = some token →
      r.authorizations.getLast? = some (headerValue ("Bearer " ++ token)) := by
  obtain ⟨url, hurl, hrequest⟩ := Option.bind_eq_some_iff.mp h
  split at hrequest
  next =>
    cases hrequest
    have hplace : ∀ pairs, (url.addPairs pairs).secure = url.secure ∧
        (url.addPairs pairs).host = url.host ∧ (url.addPairs pairs).port = url.port := by
      intro pairs
      unfold Url.addPairs
      split <;> exact ⟨rfl, rfl, rfl⟩
    obtain ⟨hsecure, hhost, hport⟩ := hplace call.query
    refine ⟨⟨url, hurl, hsecure, hhost, hport⟩, fun token htoken => ?_⟩
    simp [Call.bearerAuthorization?, htoken]
  next => cases hrequest

/-- What is said of a listing: which calls it makes and what comes of them, when it succeeds, what the
answers to the calls are decoded to, and where their requests go. -/
structure Listed (c : Config) (usable : Call → Bool) (region filter : String) (script : List Response) :
    Prop where
  followed : ∃ base pages, IsBase base c.endpoint ∧
    let first : Call := {
      url := base ++ "/subscriptions/" ++ c.subscriptionId ++ "/providers/Microsoft.Compute/skus"
      query := [("api-version", c.apiVersion), ("$filter", filter)]
      token := c.token }
    let (result, calls) := list c usable region filter script
    Followed usable region first script pages result calls
  succeeds :
    let (result, calls) := list c usable region filter script
    (∃ skus, result = .ok skus) ↔ ∀ n call, calls[n]? = some call →
      usable call = true ∧ ∃ page, (answerTo script n).Holds page
  decoded : ∀ status more page, 200 ≤ status → status < 300 → status ≠ 204 → Skipped more →
    (Response.answer status (Text.bytes (Page.written more page).pretty) true).Holds page
  requested : ∀ call : Call, (∃ request, call.request? = some request) ↔
    (∃ url, Url.parse? call.url = some url) ∧
      ∀ token, call.token = some token → isHeaderValue token = true
  carried : ∀ (call : Call) (request : Request), call.request? = some request →
    (∃ url, Url.parse? call.url = some url ∧ request.secure = url.secure ∧
      request.host = url.host ∧ request.port = url.port) ∧
    ∀ token, call.token = some token →
      request.authorizations.getLast? = some (headerValue ("Bearer " ++ token))

/-- A listing calls for the SKUs of the subscription, follows the links, and returns the machine sizes
of all pages or the first failure, whatever carries its calls out. -/
theorem list_followed (c : Config) (usable : Call → Bool) (region filter : String)
    (script : List Response) : Listed c usable region filter script := by
  obtain ⟨base, hbase, hurl⟩ := isBase_skusUrl c
  obtain ⟨pages, h⟩ := listFrom_followed c usable region script (c.firstCall filter) rfl
  refine ⟨⟨base, pages, hbase, ?_⟩, h.ok_iff, ?_, Call.request_iff, fun _ _ => Call.request_carries⟩
  · rw [Config.firstCall, hurl] at h
    rw [list, Config.firstCall, hurl]
    exact h
  · intro status more page hlow hhigh hbodied hskipped
    exact ⟨status, _, rfl, hlow, hhigh, hbodied, Page.ofBody?_written hskipped page⟩

/-- Two pages. Where the first has no field there is a string that is no UTF-8, and it has a disk and a
size without a name. -/
def twoPages : List Response :=
  let size := ["\"name\":\"D4\",", "\"resourceType\":", "\"virtualMachines\","]
  let places := ["\"locationInfo\":[", "\x7b\"location\":\"WestUS\",", "\"zones\":[\"2\",\"1\"]\x7d,",
    "\x7b\"location\":\"north\",", "\"zones\":[\"3\"]\x7d],"]
  let capabilities := ["\"capabilities\":[", "\x7b\"name\":\"vCPUs\",", "\"value\":\"4\"\x7d,",
    "\x7b\"name\":\"GPUs\"\x7d]"]
  let others := ["\x7b\"name\":\"LRS\",", "\"resourceType\":", "\"disks\"\x7d,", "\x7b\"resourceType\":",
    "\"virtualMachines\"\x7d"]
  let first := Text.bytes "\x7b\"note\":\"" ++ [0xff, 0x80] ++
    (["\",\"value\":[\x7b"] ++ size ++ places ++ capabilities ++ ["\x7d,"] ++ others ++
      ["],\"nextLink\":\"", "http://LOCALHOST", ":80/more?page=2", "\"\x7d"]).flatMap Text.bytes
  let second := ["\x7b\"value\":[\x7b", "\"name\":\"D8\",", "\"resourceType\":", "\"virtualMachines\"\x7d],",
    "\"nextLink\":\"\"\x7d"].flatMap Text.bytes
  [.answer 200 first true, .answer 200 second true]

theorem listed_twoPages :
    let c := { Config.ofSubscription "s" with
      endpoint := "http://localhost//"
      token := some "t" }
    let server : Server := ⟨some (.name "localhost", 80), twoPages, []⟩
    let usable := fun call => (server.reached? call).isSome
    let skus : List Sku := [⟨"D4", ["1", "2"], [⟨"vCPUs", "4"⟩]⟩, ⟨"D8", [], []⟩]
    Listed c usable "westus" "f" twoPages ∧
      list c usable "westus" "f" twoPages = (.ok skus,
        [⟨"http://localhost/subscriptions/s/providers/Microsoft.Compute/skus",
            [("api-version", "2019-04-01"), ("$filter", "f")], some "t"⟩,
          ⟨"http://LOCALHOST:80/more?page=2", [], some "t"⟩]) ∧
      server.list c "westus" "f" = (.ok skus, ⟨server.place, [],
        [⟨false, .name "localhost", 80,
            "/subscriptions/s/providers/Microsoft.Compute/skus?api-version=2019-04-01&%24filter=f",
            ["Bearer t"], "admission-gate/0.3.1"⟩,
          ⟨false, .name "localhost", 80, "/more?page=2", ["Bearer t"], "admission-gate/0.3.1"⟩]⟩) :=
  ⟨list_followed _ _ _ _ _, by decide +kernel, by decide +kernel⟩

end ClusterGate.Inventory
