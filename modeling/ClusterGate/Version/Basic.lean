import ClusterGate.Text.Basic

/-!
# Versions

A version has three numbers, the identifiers of a pre-release, and build identifiers. Order and
equality are those of release precedence, which never looks at the build.
-/

namespace ClusterGate

structure Version where
  major : Nat
  minor : Nat
  patch : Nat
  pre : List String := []
  build : List String := []
deriving DecidableEq, Repr, Inhabited

namespace Version

open Text

def isNumeric (identifier : String) : Bool := identifier.toList.all isDigit

/-- Order of two pre-release identifiers: numbers by value and before words, words by their
characters. -/
def compareIdentifier (a b : String) : Ordering :=
  match isNumeric a, isNumeric b with
  | true, true => compare (digitsValue a.toList) (digitsValue b.toList)
  | true, false => .lt
  | false, true => .gt
  | false, false => compare a b

/-- Order of two identifier lists, identifier by identifier; a list comes after its beginnings. -/
def compareIdentifiers : List String → List String → Ordering
  | [], [] => .eq
  | [], _ :: _ => .lt
  | _ :: _, [] => .gt
  | a :: as, b :: bs => (compareIdentifier a b).then (compareIdentifiers as bs)

/-- Order of two pre-releases; no pre-release at all comes last. -/
def comparePre : List String → List String → Ordering
  | [], [] => .eq
  | [], _ :: _ => .gt
  | _ :: _, [] => .lt
  | as, bs => compareIdentifiers as bs

def compare (a b : Version) : Ordering :=
  (Ord.compare a.major b.major).then <| (Ord.compare a.minor b.minor).then <|
    (Ord.compare a.patch b.patch).then (comparePre a.pre b.pre)

/-- Same release, whatever the builds. -/
def same (a b : Version) : Bool :=
  a.major == b.major && a.minor == b.minor && a.patch == b.patch && a.pre == b.pre

/-- Earlier in precedence. -/
def before (a b : Version) : Bool := compare a b == .lt

def preText (v : Version) : String := ".".intercalate v.pre

def prerelease? (v : Version) : Option String := if v.pre.isEmpty then none else some v.preText

/-- Whether a text holds another one somewhere. -/
def holds (part : List Char) : List Char → Bool
  | [] => part.isEmpty
  | c :: rest => part.isPrefixOf (c :: rest) || holds part rest

/-- Whether the release is an alpha: its pre-release holds the text `alpha`. -/
def isAlpha (v : Version) : Bool := holds "alpha".toList v.preText.toList

def line (v : Version) : Nat × Nat := (v.major, v.minor)

def sameLine (a b : Version) : Bool := a.line == b.line

def text (v : Version) : String :=
  toString v.major ++ "." ++ toString v.minor ++ "." ++ toString v.patch ++
    (if v.pre.isEmpty then "" else "-" ++ v.preText) ++
    (if v.build.isEmpty then "" else "+" ++ ".".intercalate v.build)

def releaseName (v : Version) : String := "v" ++ v.text

def ofNumbers (major minor patch : Nat) : Version := ⟨major, minor, patch, [], []⟩

def key (v : Version) : Nat × Nat × Nat × List String := (v.major, v.minor, v.patch, v.pre)

inductive HashInput where
  | word (n : Nat)
  | text (s : String)
deriving DecidableEq, Repr

/-- What a version feeds to a hasher: its numbers and the text of its pre-release. -/
def hashInputs (v : Version) : List HashInput :=
  [.word v.major, .word v.minor, .word v.patch, .text v.preText]

end Version

end ClusterGate
