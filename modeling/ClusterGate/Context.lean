import ClusterGate.Error

/-!
# Call contexts

A context carries a cancellation token and perhaps a deadline. Tokens form a tree: cancelling one
cancels those below it. A call wrapped by a context ends at the first look at which its token is
cancelled, its deadline has passed, or its work is done, in this order of precedence.
-/

namespace ClusterGate

abbrev TokenId := Nat

/-- The tokens made so far: the parent of each, if it has one, and those cancelled directly. A parent
is older than its children. -/
structure Tokens where
  parents : List (Option TokenId) := []
  cancelled : List TokenId := []
deriving Repr, Inhabited

namespace Tokens

/-- A token and its ancestors, youngest first. -/
def lineage (ts : Tokens) (t : TokenId) : List TokenId :=
  match ts.parents[t]? with
  | some (some p) => if p < t then t :: lineage ts p else [t]
  | _ => [t]
termination_by t

/-- Whether a token or one of its ancestors was cancelled. -/
def isCancelled (ts : Tokens) (t : TokenId) : Bool := (ts.lineage t).any ts.cancelled.contains

/-- Makes a token below another one, or a token of its own. -/
def fresh (ts : Tokens) (parent : Option TokenId) : TokenId × Tokens :=
  (ts.parents.length, { ts with parents := ts.parents ++ [parent] })

def cancel (ts : Tokens) (t : TokenId) : Tokens := { ts with cancelled := t :: ts.cancelled }

end Tokens

/-- A token and perhaps a deadline, in milliseconds of the clock. -/
structure Context where
  token : TokenId
  deadline : Option Nat := none
deriving DecidableEq, Repr, Inhabited

namespace Context

def hasExpired (c : Context) (now : Nat) : Bool :=
  match c.deadline with
  | some d => decide (d ≤ now)
  | none => false

/-- What interrupts calls under a context: cancellation first, then the deadline. -/
def interrupt? (c : Context) (ts : Tokens) (now : Nat) : Option Interrupt :=
  if ts.isCancelled c.token then some .cancelled
  else if c.hasExpired now then some .expired
  else none

def isDone (c : Context) (ts : Tokens) (now : Nat) : Bool := (c.interrupt? ts now).isSome

/-- A context below another one: a token below its token, and its deadline. -/
def child (c : Context) (ts : Tokens) : Context × Tokens :=
  let (t, ts) := ts.fresh (some c.token)
  (⟨t, c.deadline⟩, ts)

end Context

/-- One look at a wrapped call: an interrupt ends it, else its work if that is done; otherwise the
call goes on waiting. -/
def guarded {α : Type} (interrupt : Option Interrupt) (work : Option α) :
    Option (Except Interrupt α) :=
  match interrupt with
  | some i => some (.error i)
  | none => work.map .ok

end ClusterGate
