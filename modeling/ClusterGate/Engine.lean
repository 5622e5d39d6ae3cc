import ClusterGate.Sku.RegionCache
import ClusterGate.Catalog.Memo

/-!
# Engines

An engine is a decision written as a program over its questions: the table of a region, the
components of a release, the records of all releases. It also leaves notes. How a question is
answered, and what happens meanwhile, is up to who runs the engine.
-/

namespace ClusterGate

inductive Query where
  | region (name : String)
  | components (release : String)
  | releases
deriving DecidableEq, Repr

abbrev Query.Answer : Query → Type
  | .region _ => RegionTable
  | .components _ => Components
  | .releases => List Record

/-- A program with a result or an error at its end. -/
inductive Engine (α : Type) where
  | done (result : Except GateError α)
  | note (n : Note) (next : Engine α)
  | ask (q : Query) (next : Except GateError q.Answer → Engine α)

namespace Engine

/-- Runs one program after another; an error ends both. -/
def bind {α β : Type} : Engine α → (α → Engine β) → Engine β
  | .done (.ok a), f => f a
  | .done (.error e), _ => .done (.error e)
  | .note n next, f => .note n (next.bind f)
  | .ask q next, f => .ask q fun r => (next r).bind f

instance : Monad Engine where
  pure a := .done (.ok a)
  bind := bind

def fail {α : Type} (e : GateError) : Engine α := .done (.error e)

def ofExcept {α : Type} (r : Except GateError α) : Engine α := .done r

/-- Asks and goes on with the answer; an error as the answer ends the program. -/
def query (q : Query) : Engine q.Answer := .ask q .done

def notes : List Note → Engine Unit
  | [] => .done (.ok ())
  | n :: rest => .note n (notes rest)

/-- Refuses by policy unless a condition holds. -/
def require (condition : Bool) (detail : String) : Engine Unit :=
  if condition then .done (.ok ()) else .done (.error (.policyViolation detail))

def run {α σ : Type} (answer : (q : Query) → σ → Except GateError q.Answer × σ)
    (take : Note → σ → σ) : Engine α → σ → Except GateError α × σ
  | .done r, s => (r, s)
  | .note n next, s => run answer take next (take n s)
  | .ask q next, s =>
    let (r, s) := answer q s
    run answer take (next r) s

end Engine

end ClusterGate
