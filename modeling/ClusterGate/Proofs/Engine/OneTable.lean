import ClusterGate.Proofs.Engine.Told

/-!
# Calls that are judged by one table

A call whose program begins with a question about a region and rests on this region is told the same
by all its lookups, and calls the inventory at most once, whatever other calls do meanwhile. The
invariant is `Course`, which says how far the call has come; main statement: `Course.run`.
-/

namespace ClusterGate

def Lookup.result? : Lookup → Option (Except GateError RegionTable)
  | .done result => some result
  | _ => none

/-- The calls of the inventory that a lookup has made when it stands there. -/
def Lookup.callsMade : Lookup → Nat
  | .fetching true | .fetched _ => 1
  | _ => 0

def Occurrence.isCall : Occurrence → Bool
  | .called _ => true
  | _ => false

namespace Traffic

open RegionCache

variable {α : Type} {s s' : Traffic α} {m : Move α} {id : LookupId} {region name : String}
  {stage stage' : Lookup} {next : Except GateError RegionTable → Engine α} {table : RegionTable}
  {interrupt : Option Interrupt} {answer : Option (Except StorageError (List Sku))}
  {cache : RegionCache} {notes : List Note} {told : List (Except GateError RegionTable)} {n : Nat}

/-! ### What is seen of one call -/

/-- What a move tells a call: the result of the lookup that ends with it. -/
def toldBy? (s : Traffic α) (id : LookupId) : Move α → Option (Except GateError RegionTable)
  | .enter _ => none
  | .go i interrupt answer =>
    if i = id then match s.progress? id with
      | some (.looking name stage _) =>
        (s.cache.step name id interrupt answer stage).bind fun after => after.2.1.result?
      | _ => none
    else none

/-- What is seen of a call at a move of its own. -/
def seenBy (s : Traffic α) (id : LookupId) (m : Move α) : List Occurrence :=
  if m.isOf id then (s.step m).history.drop s.history.length else []

/-- What the lookups of a call are told in some moves. -/
def toldIn (id : LookupId) : Traffic α → List (Move α) → List (Except GateError RegionTable)
  | _, [] => []
  | s, m :: rest => (s.toldBy? id m).toList ++ toldIn id (s.step m) rest

def callsIn (id : LookupId) : Traffic α → List (Move α) → Nat
  | _, [] => 0
  | s, m :: rest => (s.seenBy id m).countP Occurrence.isCall + callsIn id (s.step m) rest

theorem toldBy?_of_other (h : m.isOf id = false) : s.toldBy? id m = none := by
  cases m with
  | enter program => rfl
  | go i interrupt answer =>
    have hne : i ≠ id := by simpa [Move.isOf] using h
    exact if_neg hne

theorem seenBy_of_other (h : m.isOf id = false) : s.seenBy id m = [] := by
  rw [seenBy, h]
  exact if_neg Bool.false_ne_true

/-- A call that is in its program is told nothing, and nothing is seen of it. -/
theorem unseen_of_running {e : Engine α} (here : s.progress? id = some (.running e))
    (interrupt : Option Interrupt) (answer : Option (Except StorageError (List Sku))) :
    s.toldBy? id (.go id interrupt answer) = none ∧ s.seenBy id (.go id interrupt answer) = [] := by
  have hhistory : (s.step (.go id interrupt answer)).history = s.history := by
    have hstep := step_step s (.go id interrupt answer)
    generalize s.step (.go id interrupt answer) = s' at hstep ⊢
    cases hstep with
    | idle | note | ask => rfl
    | look there =>
      rw [here] at there
      cases there
  constructor
  · rw [toldBy?, if_pos rfl, here]
  · rw [seenBy, hhistory, List.drop_length, ite_self]

theorem looking_of_asking (here : s.progress? id = some (.running (.ask (.region name) next)))
    (interrupt : Option Interrupt) (answer : Option (Except StorageError (List Sku))) :
    (s.step (.go id interrupt answer)).progress? id = some (.looking name .checking next) ∧
      (s.step (.go id interrupt answer)).cache = s.cache := by
  simp only [step, here]
  refine ⟨?_, rfl⟩
  rw [progress?_resume, if_pos rfl, here]
  rfl

theorem unseen_of_waiting (here : s.progress? id = some (.looking name stage next))
    (hwaits : s.cache.step name id interrupt answer stage = none) :
    s.toldBy? id (.go id interrupt answer) = none ∧ s.seenBy id (.go id interrupt answer) = [] ∧
      s.step (.go id interrupt answer) = s := by
  have hidle : s.step (.go id interrupt answer) = s := by
    simp only [step, here, hwaits]
  refine ⟨?_, ?_, hidle⟩
  · rw [toldBy?, if_pos rfl, here]
    simp only [hwaits, Option.bind_none]
  · rw [seenBy, hidle, List.drop_length, ite_self]

/-- What a lookup does when it goes on. -/
structure GoesOn (s : Traffic α) (id : LookupId) (interrupt : Option Interrupt)
    (answer : Option (Except StorageError (List Sku))) (name : String) (stage stage' : Lookup)
    (next : Except GateError RegionTable → Engine α) (cache : RegionCache) : Prop where
  here : (s.step (.go id interrupt answer)).progress? id = some (Progress.after name next stage')
  cache : (s.step (.go id interrupt answer)).cache = cache
  told : s.toldBy? id (.go id interrupt answer) = stage'.result?
  seen : s.seenBy id (.go id interrupt answer) = Occurrence.between name stage stage'

theorem goesOn_of_looking (here : s.progress? id = some (.looking name stage next))
    (hstep : s.cache.step name id interrupt answer stage = some (cache, stage', notes)) :
    s.GoesOn id interrupt answer name stage stage' next cache := by
  have hown : (Move.go id interrupt answer : Move α).isOf id = true := beq_self_eq_true id
  refine ⟨?here, ?cache, ?told, ?seen⟩
  case here =>
    simp only [step, here, hstep]
    rw [progress?_resume, if_pos rfl]
    exact congrArg _ here
  case cache =>
    simp only [step, here, hstep]
    rfl
  case told =>
    rw [toldBy?, if_pos rfl, here]
    simp only [hstep, Option.bind_some]
  case seen =>
    rw [seenBy, hown, if_pos rfl]
    simp only [step, here, hstep]
    exact List.drop_left

theorem hit_of_stored {c : RegionCache} (h : c.stored? region = some table) :
    c.step region id interrupt answer .checking =
      some (c, .done (.ok table), [.count .cacheHits 1]) := by
  simp only [RegionCache.step, h]

/-- A lookup that goes on has made one call more if one is seen, and none if it ends. -/
theorem callsMade_of_transition {c c' : RegionCache}
    (t : Transition region id c stage c' stage' notes) :
    stage.callsMade + (Occurrence.between region stage stage').countP Occurrence.isCall ≤ 1 ∧
      (stage'.result? = none →
        stage.callsMade + (Occurrence.between region stage stage').countP Occurrence.isCall =
          stage'.callsMade) := by
  cases t with
  | @fail called _ =>
    cases called with
    | false => exact ⟨Nat.zero_le 1, fun h => nomatch h⟩
    | true => exact ⟨Nat.le_refl 1, fun h => nomatch h⟩
  | hit | turnedAway | giveUp | lateHit => exact ⟨Nat.zero_le 1, fun h => nomatch h⟩
  | store => exact ⟨Nat.le_refl 1, fun h => nomatch h⟩
  | miss | join | acquire | begin => exact ⟨Nat.zero_le 1, fun _ => rfl⟩
  | call | arrive => exact ⟨Nat.le_refl 1, fun _ => rfl⟩

/-! ### Tables and the listings behind them -/

/-- The table is that of a listing that has arrived for the region. -/
def Brought (s : Traffic α) (region : String) (table : RegionTable) : Prop :=
  ∃ listing, .arrived region listing ∈ s.history ∧ table = RegionTable.ofListing listing

theorem Brought.step (h : Brought s region table) (hstep : Step s m s') : Brought s' region table := by
  obtain ⟨listing, harrived, rfl⟩ := h
  refine ⟨listing, ?_, rfl⟩
  rcases hstep.aside_or_looked with haside | ⟨_, _, _, _, _, hlooked, _⟩
  · rw [haside.history]
    exact harrived
  · rw [hlooked.history]
    exact List.mem_append_left _ harrived

theorem Sourced.brought (h : Sourced s) (hstored : s.cache.stored? region = some table) :
    Brought s region table :=
  h.table region table (stored?_eq_some.mp hstored).1

/-- What a lookup is told was brought by a listing. -/
theorem Sourced.brought_of_look (h : Sourced s) (here : s.progress? id = some (.looking name stage next))
    (t : Transition name id s.cache stage cache (.done (.ok table)) notes) : Brought s name table := by
  cases t with
  | hit found => exact h.brought found
  | lateHit found => exact h.brought found
  | store => exact ⟨_, h.arrived name id _ (stage?_of_looking here), rfl⟩

/-! ### How far a call has come -/

/-- All questions that are still to come are about the region. -/
def Remains (region : String) : Progress α → Prop
  | .running e => e.RestsOn region
  | .looking name _ next => (Engine.ask (.region name) next).RestsOn region

/-- How far a call has come that begins with a question about a region, what it was told so far and
how often it has called the inventory. -/
inductive Course (region : String) (next : Except GateError RegionTable → Engine α) (id : LookupId)
    (s : Traffic α) : List (Except GateError RegionTable) → Nat → Prop where
  | asking (here : s.progress? id = some (.running (.ask (.region region) next))) :
      Course region next id s [] 0
  | looking (stage : Lookup) (here : s.progress? id = some (.looking region stage next)) :
      Course region next id s [] stage.callsMade
  /-- It was told something that ended it. -/
  | ended (result : Except GateError RegionTable) (failure : GateError) (n : Nat) (few : n ≤ 1)
      (failed : next result = .done (.error failure))
      (brought : ∀ table, result = .ok table → Brought s region table)
      (here : s.progress? id = some (.running (next result))) :
      Course region next id s [result] n
  /-- It was told the table that the region keeps, once or more often. -/
  | settled (table : RegionTable) (told : List (Except GateError RegionTable)) (n : Nat)
      (few : n ≤ 1) (p : Progress α) (k : Nat) (here : s.progress? id = some p)
      (stored : s.cache.stored? region = some table) (nonempty : told ≠ [])
      (same : ∀ result ∈ told, result = .ok table) (remains : Remains region p)
      (ends : p.Ends s.cache ((next (.ok table)).against table) k) :
      Course region next id s told n

/-- What others do changes nothing for the call. -/
theorem Course.others (horderly : Orderly s) (hstep : Step s m s')
    (h : Course region next id s told n) (hother : m.isOf id = false) :
    Course region next id s' told n := by
  cases h with
  | asking here => exact .asking (progress?_of_step hstep hother here)
  | looking stage here => exact .looking stage (progress?_of_step hstep hother here)
  | ended result failure n few failed brought here =>
    exact .ended result failure n few failed (fun table h => (brought table h).step hstep)
      (progress?_of_step hstep hother here)
  | settled table told n few p k here stored nonempty same remains ends =>
    have hkept : ∀ region table, s.cache.stored? region = some table →
        s'.cache.stored? region = some table := fun _ _ => horderly.stored_step hstep
    exact .settled table told n few p k (progress?_of_step hstep hother here) (hkept _ _ stored) nonempty
      same remains (ends.mono hkept)

section Own

variable (hrests : (Engine.ask (.region region) next).RestsOn region)
include hrests

/-- A call that is told something is over, or has the table that it goes on with. -/
theorem course_of_told {result : Except GateError RegionTable} (hfew : n ≤ 1)
    (here : s'.progress? id = some (.running (next result))) (hvouches : s'.cache.Vouches region result)
    (hbrought : ∀ table, result = .ok table → Brought s' region table) :
    Course region next id s' [result] n := by
  cases hrests with
  | ask untold empty rest =>
    match result with
    | .error error =>
      obtain ⟨failure, hfailed⟩ := untold error
      exact .ended _ failure n hfew hfailed hbrought here
    | .ok [] =>
      obtain ⟨failure, hfailed⟩ := empty
      exact .ended _ failure n hfew hfailed hbrought here
    | .ok (entry :: others) =>
      -- a table that is not empty stays, so the rest of the program finds it
      have hstored := hvouches (entry :: others) rfl (List.cons_ne_nil _ _)
      obtain ⟨k, hends⟩ := (rest (entry :: others)).ends hstored
      refine .settled (entry :: others) _ n hfew _ k here hstored (List.cons_ne_nil _ _) ?_
        (rest (entry :: others)) (.running hends)
      exact List.forall_mem_singleton.mpr rfl

theorem course_of_looking (hsourced : Sourced s)
    (here : s.progress? id = some (.looking region stage next))
    (hstep : s.cache.step region id interrupt answer stage = some (cache, stage', notes)) :
    Course region next id (s.step (.go id interrupt answer)) stage'.result?.toList
      (stage.callsMade + (Occurrence.between region stage stage').countP Occurrence.isCall) := by
  have t := transition_of_step hstep
  obtain ⟨hfew, hsame⟩ := callsMade_of_transition t
  obtain ⟨there, hcache, -, -⟩ := goesOn_of_looking here hstep
  cases hresult : stage'.result? with
  | none =>
    rw [hsame hresult]
    refine .looking stage' ?_
    cases stage' with
    | done => cases hresult
    | _ => exact there
  | some result =>
    cases stage' with
    | done result' =>
      obtain rfl := Option.some.inj hresult
      refine course_of_told hrests hfew there ?_ ?_
      · rw [hcache]
        exact t.vouches
      · rintro table rfl
        exact (hsourced.brought_of_look here t).step (step_step s _)
    | _ => cases hresult

end Own

theorem remains_of_told {result : Except GateError RegionTable}
    (h : Remains region (.looking name stage next)) : (next result).RestsOn region := by
  cases h with
  | ask untold empty rest =>
    cases result with
    | error error =>
      obtain ⟨failure, hnext⟩ := untold error
      rw [hnext]
      exact .done _
    | ok table => exact rest table

theorem remains_of_running {e : Engine α} {p : Progress α} (h : e.RestsOn region)
    (here : s.progress? id = some (.running e))
    (there : (s.step (.go id interrupt answer)).progress? id = some p) : Remains region p := by
  have hstep := step_step s (.go id interrupt answer)
  generalize s.step (.go id interrupt answer) = s' at hstep there
  cases hstep with
  | idle =>
    obtain rfl := Option.some.inj (here.symm.trans there)
    exact h
  | note here' =>
    obtain rfl := Progress.running.inj (Option.some.inj (here.symm.trans here'))
    rw [progress?_resume, if_pos rfl] at there
    obtain ⟨-, -, rfl⟩ := Option.map_eq_some_iff.mp there
    cases h with
    | note rest => exact rest
  | ask here' =>
    obtain rfl := Progress.running.inj (Option.some.inj (here.symm.trans here'))
    rw [progress?_resume, if_pos rfl] at there
    obtain ⟨-, -, rfl⟩ := Option.map_eq_some_iff.mp there
    exact h
  | look here' => exact nomatch here.symm.trans here'

/-- Once a call has its table, it is told this table whenever it is told something, and does not call
the inventory any more. -/
theorem settled_step {p : Progress α} {k : Nat} {result : Except GateError α}
    (here : s.progress? id = some p) (hstored : s.cache.stored? region = some table)
    (hremains : Remains region p) (hends : p.Ends s.cache result k) (interrupt : Option Interrupt)
    (answer : Option (Except StorageError (List Sku))) :
    (∃ p', (s.step (.go id interrupt answer)).progress? id = some p' ∧ Remains region p' ∧
      p'.Ends s.cache result (k - 1)) ∧
    (∀ r, s.toldBy? id (.go id interrupt answer) = some r → r = .ok table) ∧
    s.seenBy id (.go id interrupt answer) = [] := by
  obtain ⟨p', there, hends'⟩ := ends_step hends here interrupt answer
  cases hends with
  | @running e _ rest =>
    obtain ⟨htold, hseen⟩ := unseen_of_running here interrupt answer
    refine ⟨⟨p', there, ?_, hends'⟩, fun r hr => ?_, hseen⟩
    · exact remains_of_running hremains here there
    · rw [htold] at hr
      cases hr
  | @checking name kept next _ found rest =>
    obtain ⟨hnext, -, -⟩ := step_of_stored here found interrupt answer
    obtain rfl := Option.some.inj (there.symm.trans hnext)
    obtain ⟨-, -, htold, hseen⟩ := goesOn_of_looking here (hit_of_stored found)
    refine ⟨⟨_, there, remains_of_told hremains, hends'⟩, fun r hr => ?_, hseen⟩
    have hname : name = region := by
      cases hremains with
      | ask => rfl
    rw [htold] at hr
    rw [hname, hstored] at found
    rw [Option.some.inj found]
    exact (Option.some.inj hr).symm

theorem Course.own (horderly : Orderly s) (hsourced : Sourced s)
    (hrests : (Engine.ask (.region region) next).RestsOn region)
    (h : Course region next id s told n) (interrupt : Option Interrupt)
    (answer : Option (Except StorageError (List Sku))) :
    Course region next id (s.step (.go id interrupt answer))
      (told ++ (s.toldBy? id (.go id interrupt answer)).toList)
      (n + (s.seenBy id (.go id interrupt answer)).countP Occurrence.isCall) := by
  cases h with
  | asking here =>
    obtain ⟨htold, hseen⟩ := unseen_of_running here interrupt answer
    rw [htold, hseen]
    exact .looking .checking (looking_of_asking here interrupt answer).1
  | looking stage here =>
    cases hlook : s.cache.step region id interrupt answer stage with
    | none =>
      obtain ⟨htold, hseen, hidle⟩ := unseen_of_waiting here hlook
      rw [htold, hseen, hidle]
      exact .looking stage here
    | some after =>
      obtain ⟨cache, stage', notes⟩ := after
      obtain ⟨-, -, htold, hseen⟩ := goesOn_of_looking here hlook
      rw [htold, hseen]
      exact course_of_looking hrests hsourced here hlook
  | ended result failure n few failed brought here =>
    obtain ⟨htold, hseen⟩ := unseen_of_running here interrupt answer
    have hidle : s.step (.go id interrupt answer) = s := by
      rw [failed] at here
      simp only [step, here]
    rw [htold, hseen, hidle]
    exact .ended result failure n few failed brought here
  | settled table told n few p k here stored nonempty same remains ends =>
    obtain ⟨⟨p', there, remains', ends'⟩, htold, hseen⟩ :=
      settled_step here stored remains ends interrupt answer
    have hkept : ∀ region table, s.cache.stored? region = some table →
        (s.step (.go id interrupt answer)).cache.stored? region = some table :=
      fun _ _ => horderly.stored_step (step_step s _)
    -- nothing is added to the count, and what is told now is the table that was told before
    rw [hseen]
    refine .settled table _ n few p' (k - 1) there (hkept _ _ stored) ?_ ?_ remains'
      (ends'.mono hkept)
    · exact List.append_ne_nil_of_left_ne_nil nonempty _
    · intro result hresult
      rcases List.mem_append.mp hresult with hbefore | hnow
      · exact same result hbefore
      · exact htold result (Option.mem_toList.mp hnow)

theorem Course.run (horderly : Orderly s) (hsourced : Sourced s)
    (hrests : (Engine.ask (.region region) next).RestsOn region)
    (h : Course region next id s told n) (moves : List (Move α)) :
    Course region next id (s.run moves) (told ++ toldIn id s moves) (n + callsIn id s moves) := by
  induction moves generalizing s told n with
  | nil =>
    rw [toldIn, List.append_nil]
    exact h
  | cons m rest ih =>
    have hstep := step_step s m
    rw [toldIn, callsIn, ← List.append_assoc, ← Nat.add_assoc]
    refine ih (horderly.step hstep) (hsourced.step hstep) ?_
    cases hown : m.isOf id with
    | false =>
      rw [toldBy?_of_other hown, seenBy_of_other hown, Option.toList_none, List.append_nil]
      exact h.others horderly hstep hown
    | true =>
      match m with
      | .go i interrupt answer =>
        obtain rfl : i = id := beq_iff_eq.mp hown
        exact h.own horderly hsourced hrests interrupt answer

/-! ### What follows for the call -/

theorem Course.few (h : Course region next id s told n) : n ≤ 1 := by
  cases h with
  | asking => exact Nat.zero_le 1
  | looking stage =>
    unfold Lookup.callsMade
    split
    · exact Nat.le_refl 1
    · exact Nat.le_refl 1
    · exact Nat.zero_le 1
  | ended _ _ _ few => exact few
  | settled _ _ _ few => exact few

/-- Whatever the call was told is one and the same. -/
theorem Course.same (h : Course region next id s told n) {first second : Except GateError RegionTable}
    (hfirst : first ∈ told) (hsecond : second ∈ told) : first = second := by
  cases h with
  | asking => cases hfirst
  | looking => cases hfirst
  | ended => rw [List.mem_singleton.mp hfirst, List.mem_singleton.mp hsecond]
  | settled _ _ _ _ _ _ _ _ _ same => rw [same first hfirst, same second hsecond]

theorem Course.brought (hsourced : Sourced s) (h : Course region next id s told n)
    (htold : .ok table ∈ told) : Brought s region table := by
  cases h with
  | asking => cases htold
  | looking => cases htold
  | ended _ _ _ _ _ brought => exact brought table (List.mem_singleton.mp htold).symm
  | settled _ _ _ _ _ _ _ stored _ same =>
    cases same _ htold
    exact hsourced.brought stored

/-- The result is the verdict on what the call was told. -/
theorem Course.result (h : Course region next id s told n) {result : Except GateError α}
    (hresult : s.result? id = some result) :
    ∃ r ∈ told, result = (next r).against (r.toOption.getD []) := by
  cases h with
  | asking here =>
    rw [result?, here] at hresult
    cases hresult
  | looking stage here =>
    rw [result?, here] at hresult
    cases hresult
  | ended r failure _ _ failed _ here =>
    refine ⟨r, List.mem_singleton.mpr rfl, ?_⟩
    rw [result?, here, failed] at hresult
    rw [failed]
    exact (Option.some.inj hresult).symm
  | settled table _ _ _ p k here _ nonempty same _ ends =>
    rw [result?, here] at hresult
    obtain ⟨r, hr⟩ := List.exists_mem_of_ne_nil _ nonempty
    refine ⟨r, hr, ?_⟩
    rw [same r hr]
    exact ends.eq_of_result? hresult

/-- Whoever was told something comes to a result. -/
theorem Course.ends (horderly : Orderly s) (h : Course region next id s told n) (htold : told ≠ []) :
    ∃ k, ∀ later : List (Move α), k ≤ later.countP (Move.isOf id) →
      ∃ result, (s.run later).result? id = some result := by
  cases h with
  | asking => exact absurd rfl htold
  | looking => exact absurd rfl htold
  | ended r failure _ _ failed _ here =>
    refine ⟨0, fun later _ => ⟨.error failure, result?_run ?_ later⟩⟩
    rw [result?, here, failed]
    rfl
  | settled table _ _ _ p k here _ _ _ _ ends =>
    refine ⟨k, fun later henough => ?_⟩
    obtain ⟨p', here', hend⟩ := ends_run horderly ends here later
    rw [Nat.sub_eq_zero_of_le henough] at hend
    rw [result?, here']
    exact ⟨_, hend.result?_eq⟩

/-! ### Regions that nobody else waits for -/

/-- Nothing is in the way of the lookup: it gets the listing with so many moves. -/
inductive Clear (region : String) (id : LookupId) (listing : List Sku) :
    RegionCache → Lookup → Nat → Prop where
  | checking {c : RegionCache} (missing : c.stored? region = none) (free : c.queue region = []) :
      Clear region id listing c .checking 7
  | missed {c : RegionCache} (missing : c.stored? region = none) (free : c.queue region = []) :
      Clear region id listing c .missed 6
  | queued {c : RegionCache} (missing : c.stored? region = none) (first : c.holds region id = true) :
      Clear region id listing c .queued 5
  | locked {c : RegionCache} (missing : c.stored? region = none) : Clear region id listing c .locked 4
  | begun {c : RegionCache} : Clear region id listing c (.fetching false) 3
  | called {c : RegionCache} : Clear region id listing c (.fetching true) 2
  | fetched {c : RegionCache} : Clear region id listing c (.fetched listing) 1

variable {listing : List Sku} {k : Nat}

theorem Clear.pos {c : RegionCache} (h : Clear region id listing c stage k) : 0 < k := by
  cases h <;> exact Nat.succ_pos _

theorem Clear.step {c : RegionCache} (h : Clear region id listing c stage k) :
    ∃ c' stage' notes,
      c.step region id none (some (.ok listing)) stage = some (c', stage', notes) ∧
      (stage'.result? = some (.ok (RegionTable.ofListing listing)) ∨
        Clear region id listing c' stage' (k - 1)) := by
  cases h with
  | checking missing free =>
    refine ⟨c, .missed, [.count .cacheMisses 1], ?_, Or.inr (.missed missing free)⟩
    simp only [RegionCache.step, missing]
  | missed missing free =>
    refine ⟨c.join region id, .queued, [], rfl, Or.inr (.queued missing ?_)⟩
    rw [holds_iff, queue_join, free]
    rfl
  | queued missing first =>
    refine ⟨c, .locked, [], ?_, Or.inr (.locked missing)⟩
    simp only [RegionCache.step, first, if_true, guarded, Option.map_some]
  | locked missing =>
    refine ⟨c, .fetching false, [.count .regionFetches 1], ?_, Or.inr .begun⟩
    simp only [RegionCache.step, missing]
  | begun => exact ⟨c, .fetching true, [], rfl, Or.inr .called⟩
  | called => exact ⟨c, .fetched listing, [], rfl, Or.inr .fetched⟩
  | fetched => exact ⟨_, _, _, rfl, Or.inl rfl⟩

theorem told_of_clear (h : Clear region id listing s.cache stage k)
    (here : s.progress? id = some (.looking region stage next)) :
    .ok (RegionTable.ofListing listing) ∈
      toldIn id s (List.replicate k (.go id none (some (.ok listing)))) := by
  -- with each move the lookup is one move nearer to the listing
  induction k generalizing s stage with
  | zero => exact absurd h.pos (Nat.lt_irrefl 0)
  | succ k ih =>
    obtain ⟨c', stage', notes, hlook, hnext⟩ := h.step
    obtain ⟨there, hcache, htold, -⟩ := goesOn_of_looking here hlook
    rw [List.replicate_succ, toldIn, htold, List.mem_append]
    rcases hnext with hdone | hclear
    · rw [hdone]
      exact Or.inl (List.mem_singleton.mpr rfl)
    · refine Or.inr (ih (hcache ▸ hclear) ?_)
      cases stage' with
      | done => cases hclear
      | _ => exact there

/-- Who asks for a region that nobody waits for is told the table that the region keeps or else that of
the listing. -/
theorem told_of_free (listing : List Sku)
    (here : s.progress? id = some (.running (.ask (.region region) next)))
    (hfree : s.cache.queue region = []) :
    ∃ k, .ok ((s.cache.stored? region).getD (RegionTable.ofListing listing)) ∈
      toldIn id s (List.replicate k (.go id none (some (.ok listing)))) := by
  obtain ⟨there, hcache⟩ := looking_of_asking here none (some (.ok listing))
  cases hstored : s.cache.stored? region with
  | none =>
    refine ⟨7 + 1, ?_⟩
    rw [List.replicate_succ, toldIn, List.mem_append]
    rw [← hcache] at hstored hfree
    exact Or.inr (told_of_clear (.checking hstored hfree) there)
  | some table =>
    rw [← hcache] at hstored
    obtain ⟨-, -, htold, -⟩ := goesOn_of_looking there (hit_of_stored hstored)
    refine ⟨1 + 1, ?_⟩
    rw [List.replicate_succ, List.replicate_succ, toldIn, toldIn, htold, List.mem_append,
      List.mem_append]
    exact Or.inr (Or.inl (List.mem_singleton.mpr rfl))

theorem result?_of_free (listing : List Sku) (horderly : Orderly s) (hsourced : Sourced s)
    (hrests : (Engine.ask (.region region) next).RestsOn region)
    (here : s.progress? id = some (.running (.ask (.region region) next)))
    (hfree : s.cache.queue region = []) {table : RegionTable}
    (htable : table = (s.cache.stored? region).getD (RegionTable.ofListing listing)) :
    ∃ k, ∀ n, k ≤ n →
      (s.run (List.replicate n (.go id none (some (.ok listing))))).result? id =
        some ((next (.ok table)).against table) := by
  obtain ⟨first, htold⟩ := told_of_free listing here hfree
  rw [← htable] at htold
  have hcourse := (Course.asking here).run horderly hsourced hrests
    (List.replicate first (.go id none (some (.ok listing))))
  rw [List.nil_append] at hcourse
  have hlater := run_induction (P := fun s => Orderly s ∧ Sourced s)
    (fun _ _ _ h hstep => ⟨h.1.step hstep, h.2.step hstep⟩)
    (List.replicate first (.go id none (some (.ok listing)))) ⟨horderly, hsourced⟩
  obtain ⟨more, hends⟩ := hcourse.ends hlater.1 (List.ne_nil_of_mem htold)
  refine ⟨first + more, fun n henough => ?_⟩
  obtain ⟨rest, rfl⟩ := Nat.exists_eq_add_of_le (Nat.le_trans (Nat.le_add_right first more) henough)
  rw [List.replicate_add, run, List.foldl_append, ← run, ← run]
  have hown : (Move.go id none (some (.ok listing)) : Move α).isOf id = true := beq_self_eq_true id
  obtain ⟨result, hresult⟩ := hends (List.replicate rest (.go id none (some (.ok listing)))) (by
    rw [List.countP_replicate, if_pos hown]
    exact Nat.le_of_add_le_add_left henough)
  have hend := hcourse.run hlater.1 hlater.2 hrests
    (List.replicate rest (.go id none (some (.ok listing))))
  -- the result may rest on what was told later, but that is the same
  obtain ⟨r, hr, rfl⟩ := hend.result hresult
  rw [hend.same hr (List.mem_append_left _ htold)] at hresult
  exact hresult

end Traffic

end ClusterGate
