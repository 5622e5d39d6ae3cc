import ClusterGate.Version.Basic
import ClusterGate.Text.Basic
import ClusterGate.Text.Quoted

/-!
# Reading versions

Blanks around a version and one leading `v` are dropped, missing minor and patch numbers are zero.
What remains has to be a full version; it is read from left to right and the first fault counts.
-/

namespace ClusterGate.Version

open Text

/-- The parts of a version in which a fault can lie. -/
inductive Part where
  | major
  | minor
  | patch
  | pre
  | build
deriving DecidableEq, Repr

def Part.text : Part → String
  | .major => "major version number"
  | .minor => "minor version number"
  | .patch => "patch version number"
  | .pre => "pre-release identifier"
  | .build => "build metadata"

/-- Why a text is no version. -/
inductive Fault where
  | empty
  | tooManyNumbers
  | endsIn (part : Part)
  | unexpectedIn (c : Char) (part : Part)
  | unexpectedAfter (c : Char) (part : Part)
  | leadingZero (part : Part)
  | tooLarge (part : Part)
  | emptyIdentifier (part : Part)
deriving DecidableEq, Repr

def Fault.text : Fault → String
  | .empty => "empty version"
  | .tooManyNumbers => "more than three numeric components"
  | .endsIn p => "unexpected end of input while parsing " ++ p.text
  | .unexpectedIn c p => "unexpected character " ++ quotedChar c ++ " while parsing " ++ p.text
  | .unexpectedAfter c p => "unexpected character " ++ quotedChar c ++ " after " ++ p.text
  | .leadingZero p => "invalid leading zero in " ++ p.text
  | .tooLarge p => "value of " ++ p.text ++ " exceeds u64::MAX"
  | .emptyIdentifier p => "empty identifier segment in " ++ p.text

structure Invalid where
  input : String
  fault : Fault
deriving DecidableEq, Repr

def Invalid.message (e : Invalid) : String :=
  "invalid version " ++ quoted e.input ++ ": " ++ e.fault.text

/-- A number of 64 bits without leading zeros, and what follows it. -/
def number (part : Part) (cs : List Char) : Except Fault (Nat × List Char) :=
  match cs.takeWhile isDigit, cs.dropWhile isDigit with
  | [], [] => .error (.endsIn part)
  | [], c :: _ => .error (.unexpectedIn c part)
  | digits, rest =>
    if digits.head? = some '0' ∧ digits ≠ ['0'] then .error (.leadingZero part)
    else if maxWord < digitsValue digits then .error (.tooLarge part)
    else .ok (digitsValue digits, rest)

def dot (part : Part) : List Char → Except Fault (List Char)
  | '.' :: rest => .ok rest
  | c :: _ => .error (.unexpectedAfter c part)
  | [] => .error (.endsIn part)

/-- The characters of identifiers: ASCII letters, digits and the hyphen. -/
def isIdentifierChar (c : Char) : Bool :=
  ('a' ≤ c && c ≤ 'z') || ('A' ≤ c && c ≤ 'Z') || isDigit c || c == '-'

/-- Whether an identifier is a number with a leading zero. -/
def zeroLed (identifier : List Char) : Bool :=
  identifier.all isDigit && identifier.length != 1 && identifier.head? == some '0'

/-- One or more identifiers, separated by dots; the fuel bounds their number. -/
def identifiers (part : Part) : Nat → List Char → Except Fault (List String × List Char)
  | 0, _ => .error (.emptyIdentifier part)
  | fuel + 1, cs =>
    match cs.takeWhile isIdentifierChar, cs.dropWhile isIdentifierChar with
    | [], _ => .error (.emptyIdentifier part)
    | first, rest =>
      if part = .pre ∧ zeroLed first then .error (.leadingZero part)
      else match rest with
        | '.' :: rest => do
          let (others, rest) ← identifiers part fuel rest
          return (String.ofList first :: others, rest)
        | rest => return ([String.ofList first], rest)

/-- The identifiers behind a mark, or none if the mark is not there. -/
def marked (mark : Char) (part : Part) (cs : List Char) :
    Except Fault (Option (List String) × List Char) :=
  match cs with
  | [] => .ok (none, [])
  | c :: rest =>
    if c = mark then do
      let (ids, rest) ← identifiers part (rest.length + 1) rest
      return (some ids, rest)
    else .ok (none, c :: rest)

/-- A full version: three numbers, a pre-release behind a hyphen, a build behind a plus sign. -/
def readFull (cs : List Char) : Except Fault Version := do
  let (major, cs) ← number .major cs
  let cs ← dot .major cs
  let (minor, cs) ← number .minor cs
  let cs ← dot .minor cs
  let (patch, cs) ← number .patch cs
  let (pre, cs) ← marked '-' .pre cs
  let (build, cs) ← marked '+' .build cs
  match cs with
  | [] => return ⟨major, minor, patch, pre.getD [], build.getD []⟩
  | c :: _ =>
    let last : Part := if build.isSome then .build else if pre.isSome then .pre else .patch
    .error (.unexpectedAfter c last)

/-- Drops one leading `v` of either case. -/
def dropMark : List Char → List Char
  | 'v' :: rest => rest
  | 'V' :: rest => rest
  | cs => cs

/-- Whether a character ends the numbers of a version. -/
def endsNumbers (c : Char) : Bool := c == '-' || c == '+'

/-- Adds zeros for missing numbers: the numbers are what stands before the first hyphen or plus
sign. -/
def pad (cs : List Char) : Except Fault (List Char) :=
  let core := cs.takeWhile (fun c => !endsNumbers c)
  let rest := cs.dropWhile (fun c => !endsNumbers c)
  match core.count '.' with
  | 0 => .ok (core ++ ".0.0".toList ++ rest)
  | 1 => .ok (core ++ ".0".toList ++ rest)
  | 2 => .ok (core ++ rest)
  | _ => .error .tooManyNumbers

def readChars (cs : List Char) : Except Fault Version :=
  match dropMark (trim cs) with
  | [] => .error .empty
  | cs => do readFull (← pad cs)

def parse (input : String) : Except Invalid Version :=
  match readChars input.toList with
  | .ok v => .ok v
  | .error fault => .error ⟨input, fault⟩

def parse? (input : String) : Option Version := (parse input).toOption

end ClusterGate.Version
