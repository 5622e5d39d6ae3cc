import ClusterGate.Json.Fields
import ClusterGate.Version.Parser

/-!
# Kinds of errors and reasons of upgrade decisions
-/

namespace ClusterGate

inductive ErrorKind where
  | invalidRequest
  | notFound
  | invalidResponse
  | backendUnavailable
  | cancelled
  | releaseNotFound
  | downgrade
  | alphaBoundary
  | releaseSkipped
  | policyViolation
deriving DecidableEq, Repr

namespace ErrorKind

def text : ErrorKind → String
  | .invalidRequest => "invalid-request"
  | .notFound => "not-found"
  | .invalidResponse => "upstream-invalid-response"
  | .backendUnavailable => "upstream-unavailable"
  | .cancelled => "cancelled"
  | .releaseNotFound => "release-not-found"
  | .downgrade => "downgrade"
  | .alphaBoundary => "alpha-boundary"
  | .releaseSkipped => "release-skipped"
  | .policyViolation => "policy-violation"

def all : List ErrorKind :=
  [.invalidRequest, .notFound, .invalidResponse, .backendUnavailable, .cancelled,
   .releaseNotFound, .downgrade, .alphaBoundary, .releaseSkipped, .policyViolation]

def ofText? (s : String) : Option ErrorKind := all.find? fun k => k.text == s

/-- Reads a kind: its name, or an object whose only member has that name and is null. -/
def read? : Doc → Option ErrorKind
  | .str s => ofText? s
  | .obj [(s, .null)] => ofText? s
  | _ => none

def encode (k : ErrorKind) : Json := .str k.text

end ErrorKind

namespace Version

def read? (d : Doc) : Option Version := (Doc.text? d).bind parse?

def encode (v : Version) : Json := .str v.text

end Version

namespace Upgrade

/-- Why an upgrade is allowed or denied. -/
inductive Reason where
  | equal
  | success
  | releaseNotFound
  | downgrade
  | alphaBoundary
  | releaseSkipped (skipped : Version)
deriving DecidableEq, Repr

namespace Reason

def tag : Reason → String
  | .equal => "equal"
  | .success => "success"
  | .releaseNotFound => "release-not-found"
  | .downgrade => "downgrade"
  | .alphaBoundary => "alpha-boundary"
  | .releaseSkipped _ => "release-skipped"

def isAllowed : Reason → Bool
  | .equal | .success => true
  | _ => false

def errorKind : Reason → ErrorKind
  | .releaseNotFound => .releaseNotFound
  | .downgrade => .downgrade
  | .alphaBoundary => .alphaBoundary
  | .releaseSkipped _ => .releaseSkipped
  | .equal | .success => .invalidRequest

def fields : Reason → List (String × Json)
  | .releaseSkipped v => [("reason", .str "release-skipped"), ("skipped", v.encode)]
  | r => [("reason", .str r.tag)]

def encode (r : Reason) : Json := Json.object r.fields

def tags : List String :=
  ["equal", "success", "release-not-found", "downgrade", "alpha-boundary", "release-skipped"]

/-- The reason with a tag whose version, if it has one, is still to be read. -/
def plain? : String → Option Reason
  | "equal" => some .equal
  | "success" => some .success
  | "release-not-found" => some .releaseNotFound
  | "downgrade" => some .downgrade
  | "alpha-boundary" => some .alphaBoundary
  | _ => none

/-- Reads the reason with a tag from the members that stand beside the tag. -/
def withTag? (tag : String) (rest : Doc) : Option Reason :=
  if tag = "release-skipped" then do
    let s ← rest.slots? ["skipped"]
    return .releaseSkipped (← s.required "skipped" Version.read?)
  else match rest with
    | .obj _ => plain? tag
    | .arr [] => plain? tag
    | _ => none

end Reason

end Upgrade

namespace Doc

/-- Splits a tagged record into its tag and the rest: the tag is the member of that name, or the
first element. Such a record is read as a whole, so every part of it has to have a value. -/
def tagged? (tag : String) (d : Doc) : Option (Doc × Doc) :=
  match d with
  | .obj members =>
    match members.filter fun m => m.1 == tag with
    | [(_, t)] =>
      if d.value?.isSome then some (t, .obj (members.filter fun m => m.1 != tag)) else none
    | _ => none
  | .arr (t :: rest) => if d.value?.isSome then some (t, .arr rest) else none
  | _ => none

end Doc

def Upgrade.Reason.read? (d : Doc) : Option Upgrade.Reason := do
  let (tag, rest) ← d.tagged? "reason"
  withTag? (← tag.text?) rest

end ClusterGate
