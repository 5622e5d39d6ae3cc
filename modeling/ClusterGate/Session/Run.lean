import ClusterGate.Session.Activity

/-!
# Running a session

A step is looked at until it is finished. When it waits, cancellations get their turn; when nothing
moves any more, the clock jumps to the next timer.
-/

namespace ClusterGate.Session

def nextTimer? (now : Nat) (timers : List Nat) : Option Nat := (timers.filter (now < ·)).min?

/-- Runs an activity to its end. Every round either moves something or uses up a timer. -/
def settle : Nat → Activity → World → Activity × World
  | 0, a, w => (a, w)
  | fuel + 1, a, w =>
    let (a, w, moved) := a.poll w
    if a.isFinished then (a, w)
    else
      let before := w.tokens.cancelled.length
      let w := w.runCancellers
      if moved || before < w.tokens.cancelled.length then settle fuel a w.fireTimers
      else match nextTimer? w.now (a.timers ++ w.cancellerTimers) with
        | some time => settle fuel a (w.jump time)
        | none => (a, w)

/-- Rounds that are enough for a step: a call asks few questions, each with few timers. -/
def rounds (w : World) (s : Step) : Nat := 100 * s.size + 4 * w.cancellers.length + 10

def runStep (w : World) (call : Call) : Except Failure Reply × World :=
  let (a, w) := settle (rounds w call.1) (.ofCall call) w
  (a.result, w)

/-- The answer to a step: its result, what it reported, and the state of the world after it. -/
structure Answer where
  result : Except Failure Reply
  entries : List Entry
  world : World

def run : World → List Call → List Answer
  | _, [] => []
  | w, call :: rest =>
    let (result, w) := runStep { w with ledger.entries := [] } call
    ⟨result, w.ledger.entries, w⟩ :: run w rest

end ClusterGate.Session
