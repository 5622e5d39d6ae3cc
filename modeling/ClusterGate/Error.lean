import ClusterGate.Upgrade.Reason

/-!
# Errors

What a store or an inventory can fail with, what a decision can fail with, their kinds and wording.
-/

namespace ClusterGate

inductive StorageError where
  | unavailable (detail : String)
  | notFound (kind name : String)
  | decode (detail : String)
  | io (detail : String)
deriving DecidableEq, Repr

def StorageError.message : StorageError → String
  | .unavailable detail => "Backend unavailable: " ++ detail
  | .notFound kind name => kind ++ " " ++ name ++ " not found"
  | .decode detail => "Decoding failed: " ++ detail
  | .io detail => "IO error: " ++ detail

/-- What ends a wrapped call before its work is done. -/
inductive Interrupt where
  | cancelled
  | expired
deriving DecidableEq, Repr

/-- Why a decision or a query has no answer. -/
inductive GateError where
  | invalidRequest (detail : String)
  | skuNotFound (region instanceType : String)
  | releaseNotFound (name : String)
  | recordNotFound (kind name : String)
  | invalidResponse (instanceType capability : String) (value : Option String)
  | invalidRelease (name reason : String)
  | malformedRecord (detail : String)
  | backendUnavailable (cause : StorageError)
  | cancelled (operation : String)
  | deadlineExceeded (operation : String)
  | upgradeDenied (reason : Upgrade.Reason) (text : String)
  | policyViolation (detail : String)
  | serialization (detail : String)
deriving DecidableEq, Repr

namespace GateError

def message : GateError → String
  | .invalidRequest detail => "invalid request: " ++ detail
  | .skuNotFound region instanceType =>
    "SKU " ++ instanceType ++ " not found in region " ++ region
  | .releaseNotFound name => "release " ++ name ++ " not found"
  | .recordNotFound kind name => kind ++ " " ++ name ++ " not found"
  | .invalidResponse instanceType capability value =>
    "invalid upstream response: capability " ++ capability ++ " of " ++ instanceType ++ " is " ++
      value.getD "missing"
  | .invalidRelease name reason => "release " ++ name ++ " is not a semantic version: " ++ reason
  | .malformedRecord detail => "malformed record: " ++ detail
  | .backendUnavailable cause => "upstream unavailable: " ++ cause.message
  | .cancelled operation => operation ++ " cancelled"
  | .deadlineExceeded operation => operation ++ " deadline exceeded"
  | .upgradeDenied _ text => text
  | .policyViolation detail => "policy violation: " ++ detail
  | .serialization detail => "serialization error: " ++ detail

def kind : GateError → ErrorKind
  | .invalidRequest _ | .serialization _ => .invalidRequest
  | .skuNotFound .. | .releaseNotFound _ | .recordNotFound .. => .notFound
  | .invalidResponse .. | .invalidRelease .. | .malformedRecord _ =>
    .invalidResponse
  | .backendUnavailable _ => .backendUnavailable
  | .cancelled _ | .deadlineExceeded _ => .cancelled
  | .upgradeDenied reason _ => reason.errorKind
  | .policyViolation _ => .policyViolation

/-- Whether the error says no to the request, as opposed to a fault of the system. -/
def isPolicyDenial (e : GateError) : Bool :=
  match e.kind with
  | .notFound | .releaseNotFound | .downgrade | .alphaBoundary | .releaseSkipped
  | .policyViolation => true
  | _ => false

def isSystemFault (e : GateError) : Bool := !e.isPolicyDenial

def ofStorage : StorageError → GateError
  | .notFound kind name => .recordNotFound kind name
  | .decode detail => .malformedRecord detail
  | cause => .backendUnavailable cause

def ofInterrupt (operation : String) : Interrupt → GateError
  | .cancelled => .cancelled operation
  | .expired => .deadlineExceeded operation

end GateError

end ClusterGate
