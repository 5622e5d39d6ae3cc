import ClusterGate.Session.Backends
import ClusterGate.Session.Request

/-!
# The world of a session

Everything that the steps of a session share: the clock, contexts, backends, caches, counters, and
the cancellations that are still to come.

The clock moves only while everything waits. A timer has fired once the world has waited at its time
or later, so a clock that was pushed ahead leaves its timers to the next wait.
-/

namespace ClusterGate.Session

/-- Where a cancellation to come stands. -/
inductive Pending where
  /-- Not started: its delay begins at the next wait. -/
  | fresh (delay : Nat)
  | sleeping (wake : Nat)
  /-- Its timer has fired; it cancels at the next wait. -/
  | due
deriving DecidableEq, Repr

structure Canceller where
  token : TokenId
  state : Pending
deriving DecidableEq, Repr

structure World where
  now : Nat := 0
  /-- The time up to which timers have fired. -/
  fired : Nat := 0
  tokens : Tokens := {}
  contexts : Dict Context := []
  store : StoreBackend := {}
  source : SourceBackend := {}
  cache : RegionCache := {}
  memo : ComponentMemo := []
  ledger : Ledger := {}
  cancellers : List Canceller := []
  nextLookup : LookupId := 0
deriving Inhabited

namespace World

/-- Makes a context with a token of its own and perhaps a timeout. -/
def newContext (w : World) (timeout : Option Nat) : Context × World :=
  let (t, tokens) := w.tokens.fresh none
  (⟨t, timeout.map (w.now + ·)⟩, { w with tokens := tokens })

/-- The context of a step: a named one or a new one, a timeout replacing its deadline. -/
def contextFor (w : World) (name : Option String) (timeout : Option Nat) : Context × World :=
  match name.bind w.contexts.get? with
  | some c => match timeout with
    | some ms => ({ c with deadline := some (w.now + ms) }, w)
    | none => (c, w)
  | none => w.newContext timeout

def name (w : World) (name : String) (c : Context) : World :=
  { w with contexts := w.contexts.insert name c }

def interrupt? (w : World) (c : Context) : Option Interrupt := c.interrupt? w.tokens w.fired

def cancel (w : World) (t : TokenId) : World := { w with tokens := w.tokens.cancel t }

def notes (w : World) (ns : List Note) : World := { w with ledger := w.ledger.notes ns }

def markDue (w : World) (c : Canceller) : Canceller :=
  match c.state with
  | .sleeping wake => if wake ≤ w.fired then { c with state := .due } else c
  | _ => c

def fireTimers (w : World) : World :=
  let w := { w with fired := w.now }
  { w with cancellers := w.cancellers.map w.markDue }

/-- Moves the clock to a time and fires the timers up to it. -/
def jump (w : World) (time : Nat) : World := { w with now := time }.fireTimers

/-- Runs one cancellation while the world waits: a fresh one starts its delay, a due one cancels. -/
def runCanceller (w : World) (c : Canceller) : World :=
  match c.state with
  | .fresh delay =>
    if w.now + delay ≤ w.fired then w.cancel c.token
    else { w with cancellers := w.cancellers ++ [{ c with state := .sleeping (w.now + delay) }] }
  | .sleeping _ => { w with cancellers := w.cancellers ++ [c] }
  | .due => w.cancel c.token

def runCancellers (w : World) : World :=
  w.cancellers.foldl runCanceller { w with cancellers := [] }

def cancellerTimers (w : World) : List Nat :=
  w.cancellers.filterMap fun c => match c.state with
    | .sleeping wake => some wake
    | _ => none

end World

end ClusterGate.Session
