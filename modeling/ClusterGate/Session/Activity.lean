import ClusterGate.Session.World

/-!
# Activities

A step of a session under way. Looking at an activity moves it on until it has to wait; a group looks
at its members in order. Questions of an engine are answered by the steps of the region cache, the
component memo and the catalog listing.
-/

namespace ClusterGate.Session

inductive Step where
  | insert (r : Record)
  | storeFail (detail : String)
  | storeQueue (e : StorageError)
  | storeList (kind : String)
  | storeGet (kind name : String)
  | sourceFail (detail : String)
  | sourceRecover
  | sourceQueue (region : String) (script : ScriptedListing)
  | sourceList (region filter : String)
  | callsFor (region : String)
  | filters
  | cachedRegions
  | request (r : Request)
  | newContext (name : String) (timeout : Option Nat) (tokenOf : Option String)
  | childContext (name parent : String)
  | cancel (name : String)
  | contextState (name : String)
  | cancelAfter (name : String) (delay : Nat)
  /-- Sleeps under a context and then replies with a value. -/
  | run (delay : Nat) (value : Json)
  | advance (delay : Nat)
  | concurrent (calls : List (Step × Option String × Option Nat))
  /-- A step that was refused before it began. -/
  | refused (f : Failure)

/-- A step and the context it asks for: a name and a timeout. -/
abbrev Call := Step × Option String × Option Nat

mutual

def Step.size : Step → Nat
  | .concurrent calls => sizeAll calls + 1
  | _ => 1

def sizeAll : List (Step × Option String × Option Nat) → Nat
  | [] => 0
  | (s, _, _) :: rest => s.size + sizeAll rest

end

/-- Where the answer to a question stands. -/
inductive Wait : (q : Query) → Type where
  | region (name : String) (id : LookupId) (stage : Lookup)
      (flight : Option (Flight (Except StorageError (List Sku)))) : Wait (.region name)
  | components (release : String) (stage : Reading) (flight : Option (Flight StorageError)) :
      Wait (.components release)
  | releases (stage : CatalogListing) (flight : Option (Flight StorageError)) : Wait .releases

namespace Wait

def start (w : World) : (q : Query) → Wait q × World
  | .region name =>
    (.region name w.nextLookup .checking none, { w with nextLookup := w.nextLookup + 1 })
  | .components release => (.components release .checking none, w)
  | .releases => (.releases (.listing false) none, w)

def result? : {q : Query} → Wait q → Option (Except GateError q.Answer)
  | _, .region _ _ (.done r) _ => some r
  | _, .components _ (.done r) _ => some r
  | _, .releases (.done r) _ => some r
  | _, _ => none

/-- One step towards the answer, or none if it has to wait or is there. A step that makes a call
starts its flight. -/
def step (w : World) (c : Context) : {q : Query} → Wait q → Option (Wait q × World)
  | _, .region name id stage flight =>
    let answer := flight.bind fun f =>
      if f.readyAt ≤ w.fired then some (w.source.listed f name) else none
    match w.cache.step name id (w.interrupt? c) answer stage with
    | none => none
    | some (cache, stage, ns) =>
      let w := { w with cache := cache }.notes ns
      match stage with
      | .fetching true =>
        let (f, source) := w.source.call w.now name (regionFilter name)
        some (.region name id stage (some f), { w with source := source })
      | _ => some (.region name id stage none, w)
  | _, .components release stage flight =>
    let answer := flight.bind fun f =>
      if f.readyAt ≤ w.fired then some (w.store.got f releaseKind release) else none
    match w.memo.step release (w.interrupt? c) answer stage with
    | none => none
    | some (memo, stage) =>
      let w := { w with memo := memo }
      match stage with
      | .reading true =>
        let (f, store) := w.store.call w.now (.get releaseKind release)
        some (.components release stage (some f), { w with store := store })
      | _ => some (.components release stage none, w)
  | _, .releases stage flight =>
    let answer := flight.bind fun f =>
      if f.readyAt ≤ w.fired then some (w.store.listed f releaseKind) else none
    match stage.step (w.interrupt? c) answer with
    | none => none
    | some stage =>
      match stage with
      | .listing true =>
        let (f, store) := w.store.call w.now (.list releaseKind)
        some (.releases stage (some f), { w with store := store })
      | _ => some (.releases stage none, w)

/-- Steps on until the answer is there or has to be waited for. A lookup has seven steps at most, the
other questions have less. -/
def settle (c : Context) {q : Query} : Nat → Wait q → World → Wait q × World
  | 0, wait, w => (wait, w)
  | fuel + 1, wait, w => match wait.step w c with
    | none => (wait, w)
    | some (wait, w) => settle c fuel wait w

/-- The number of steps that is always enough. -/
def maxSteps : Nat := 8

def flightTimer {α : Type} (f : Option (Flight α)) : List Nat := (f.map Flight.readyAt).toList

def timers (c : Context) : {q : Query} → Wait q → List Nat
  | _, .region _ _ _ f => c.deadline.toList ++ flightTimer f
  | _, .components _ _ f => c.deadline.toList ++ flightTimer f
  | _, .releases _ f => c.deadline.toList ++ flightTimer f

end Wait

inductive Activity where
  | unstarted (call : Step × Option String × Option Nat)
  | finished (result : Except Failure Reply)
  /-- An engine that waits for an answer. -/
  | asking (c : Context) (q : Query) (wait : Wait q)
      (next : Except GateError q.Answer → Engine Reply)
  | listing (kind : String) (flight : Flight StorageError)
  | getting (kind name : String) (flight : Flight StorageError)
  | sourcing (region : String) (flight : Flight (Except StorageError (List Sku)))
  | sleeping (c : Context) (wake : Nat) (value : Json)
  /-- The clock was pushed ahead; the rest of the world gets a turn. -/
  | yielding
  | group (members : List Activity)

namespace Activity

def sleepOperation : String := "test.op"

/-- Runs an engine until it is done or has to wait for an answer. -/
def drive (c : Context) : Engine Reply → World → Activity × World
  | .done (.ok r), w => (.finished (.ok r), w)
  | .done (.error e), w => (.finished (.error (.gate e)), w)
  | .note n next, w => drive c next (w.notes [n])
  | .ask q next, w =>
    let (wait, w) := Wait.start w q
    let (wait, w) := wait.settle c Wait.maxSteps w
    match wait.result? with
    | some r => drive c (next r) w
    | none => (.asking c q wait next, w)

def pollListing (kind : String) (f : Flight StorageError) (w : World) : Activity :=
  if f.readyAt ≤ w.fired then
    .finished (((w.store.listed f kind).mapError .storage).map .records)
  else .listing kind f

def pollGetting (kind name : String) (f : Flight StorageError) (w : World) : Activity :=
  if f.readyAt ≤ w.fired then
    .finished (((w.store.got f kind name).mapError .storage).map .record?)
  else .getting kind name f

def pollSourcing (region : String) (f : Flight (Except StorageError (List Sku))) (w : World) :
    Activity :=
  if f.readyAt ≤ w.fired then
    .finished (((w.source.listed f region).mapError .storage).map .skus)
  else .sourcing region f

def pollSleeping (c : Context) (wake : Nat) (value : Json) (w : World) : Activity :=
  match guarded (w.interrupt? c) (if wake ≤ w.fired then some value else none) with
  | some (.ok v) => .finished (.ok (.value v))
  | some (.error i) => .finished (.error (.gate (.ofInterrupt sleepOperation i)))
  | none => .sleeping c wake value

def reply (r : Reply) (w : World) : Activity × World := (.finished (.ok r), w)

mutual

/-- A step before it begins; the calls of a concurrent step form a group. -/
def ofCall : Step × Option String × Option Nat → Activity
  | (.concurrent calls, _, _) => .group (ofCalls calls)
  | call => .unstarted call

def ofCalls : List (Step × Option String × Option Nat) → List Activity
  | [] => []
  | call :: rest => ofCall call :: ofCalls rest

end

def start (w : World) (name : Option String) (timeout : Option Nat) : Step → Activity × World
  | .insert r => reply .unit { w with store.records := w.store.records.insert r }
  | .storeFail detail => reply .unit { w with store.failure := some detail }
  | .storeQueue e => reply .unit { w with store.script := w.store.script ++ [e] }
  | .storeList kind =>
    let (f, store) := w.store.call w.now (.list kind)
    let w := { w with store := store }
    (pollListing kind f w, w)
  | .storeGet kind record =>
    let (f, store) := w.store.call w.now (.get kind record)
    let w := { w with store := store }
    (pollGetting kind record f w, w)
  | .sourceFail detail => reply .unit { w with source.failure := some detail }
  | .sourceRecover => reply .unit { w with source.failure := none }
  | .sourceQueue region script => reply .unit { w with source := w.source.enqueue region script }
  | .sourceList region filter =>
    let (f, source) := w.source.call w.now region filter
    let w := { w with source := source }
    (pollSourcing region f w, w)
  | .callsFor region => reply (.number ((w.source.callsByRegion.get? region).getD 0)) w
  | .filters => reply (.texts w.source.filters) w
  | .cachedRegions => reply (.texts w.cache.regions) w
  | .request r =>
    let (c, w) := w.contextFor name timeout
    drive c r.engine w
  | .newContext name own tokenOf =>
    let (c, w) := w.newContext own
    let c := match tokenOf.bind w.contexts.get? with
      | some other => { c with token := other.token }
      | none => c
    reply .unit (w.name name c)
  | .childContext name parent =>
    let (c, w) := w.contextFor (some parent) none
    let (child, tokens) := c.child w.tokens
    reply .unit ({ w with tokens := tokens }.name name child)
  | .cancel name =>
    let (c, w) := w.contextFor (some name) none
    reply .unit (w.cancel c.token)
  | .contextState name =>
    let (c, w) := w.contextFor (some name) none
    reply (.context ⟨c.isDone w.tokens w.now, c.deadline, w.tokens.isCancelled c.token⟩) w
  | .cancelAfter name delay =>
    let (c, w) := w.contextFor (some name) none
    reply .unit { w with cancellers := w.cancellers ++ [⟨c.token, .fresh delay⟩] }
  | .run delay value =>
    let (c, w) := w.contextFor name timeout
    (pollSleeping c (readyAfter w.now delay) value w, w)
  | .advance delay => (.yielding, { w with now := w.now + delay })
  | .concurrent calls => (.group (calls.map .unstarted), w)
  | .refused f => (.finished (.error f), w)

def isFinished : Activity → Bool
  | .finished _ => true
  | _ => false

def result : Activity → Except Failure Reply
  | .finished r => r
  | _ => .error .stalled

def ofGroup (members : List Activity) : Activity :=
  if members.all isFinished then .finished (.ok (.group (members.map result)))
  else .group members

def pollAsking (c : Context) (q : Query) (wait : Wait q)
    (next : Except GateError q.Answer → Engine Reply) (w : World) : Activity × World × Bool :=
  match wait.step w c with
  | none => (.asking c q wait next, w, false)
  | some (wait, w) =>
    let (wait, w) := wait.settle c Wait.maxSteps w
    match wait.result? with
    | some r =>
      let (a, w) := drive c (next r) w
      (a, w, true)
    | none => (.asking c q wait next, w, true)

mutual

/-- A look at an activity: what has become of it, and whether anything moved. -/
def poll : Activity → World → Activity × World × Bool
  | .unstarted (step, name, timeout), w =>
    let (a, w) := start w name timeout step
    (a, w, true)
  | .finished r, w => (.finished r, w, false)
  | .asking c q wait next, w => pollAsking c q wait next w
  | .listing kind f, w => let a := pollListing kind f w; (a, w, a.isFinished)
  | .getting kind name f, w => let a := pollGetting kind name f w; (a, w, a.isFinished)
  | .sourcing region f, w => let a := pollSourcing region f w; (a, w, a.isFinished)
  | .sleeping c wake value, w => let a := pollSleeping c wake value w; (a, w, a.isFinished)
  | .yielding, w => (.finished (.ok .unit), w, true)
  | .group members, w =>
    let (members, w, moved) := pollAll members w
    (ofGroup members, w, moved)

def pollAll : List Activity → World → List Activity × World × Bool
  | [], w => ([], w, false)
  | a :: rest, w =>
    let (a, w, moved) := poll a w
    let (rest, w, others) := pollAll rest w
    (a :: rest, w, moved || others)

end

mutual

def timers : Activity → List Nat
  | .asking c _ wait _ => wait.timers c
  | .listing _ f => [f.readyAt]
  | .getting _ _ f => [f.readyAt]
  | .sourcing _ f => [f.readyAt]
  | .sleeping c wake _ => wake :: c.deadline.toList
  | .group members => timersAll members
  | _ => []

def timersAll : List Activity → List Nat
  | [] => []
  | a :: rest => timers a ++ timersAll rest

end

end Activity

end ClusterGate.Session
