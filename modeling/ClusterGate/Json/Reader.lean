import ClusterGate.Json.Literal

/-!
# Reading JSON text

A strict reader: no comments, no trailing commas, no leading zeros, nothing after the value. Arrays
and objects may nest 127 deep; deeper ones are well formed but unreadable.
-/

namespace ClusterGate.Json

open Text

def isSpace (c : Char) : Bool := c == ' ' || c == '\n' || c == '\t' || c == '\r'

def skipSpace (cs : List Char) : List Char := cs.dropWhile isSpace

/-- A piece of a string: a character, or a UTF-16 unit written as an escape. -/
inductive Piece where
  | char (c : Char)
  | unit (n : Nat)
deriving Repr

/-- The character of a one-letter escape. -/
def escaped? : Char → Option Char
  | '"' => some '"'
  | '\\' => some '\\'
  | '/' => some '/'
  | 'b' => some '\x08'
  | 'f' => some '\x0c'
  | 'n' => some '\n'
  | 'r' => some '\r'
  | 't' => some '\t'
  | _ => none

def fourHex? (a b c d : Char) : Option Nat := do
  return 4096 * (← hexValue? a) + 256 * (← hexValue? b) + 16 * (← hexValue? c) + (← hexValue? d)

/-- Splits the inside of a string up to its closing quote. -/
def pieces : List Char → Option (List Piece × List Char)
  | [] => none
  | '"' :: rest => some ([], rest)
  | '\\' :: 'u' :: a :: b :: c :: d :: rest => do
    let n ← fourHex? a b c d
    let (ps, rest) ← pieces rest
    return (.unit n :: ps, rest)
  | '\\' :: e :: rest => do
    let c ← escaped? e
    let (ps, rest) ← pieces rest
    return (.char c :: ps, rest)
  | c :: rest =>
    if c.toNat < 0x20 ∨ c = '\\' then none
    else do
      let (ps, rest) ← pieces rest
      return (.char c :: ps, rest)

/-- Joins the pieces of a string: two units that form a surrogate pair make one character, half a
pair makes none. What a sign of the source and what a character given by its units come to is up to
the source. -/
def joinPieces {α : Type} (sign coded : Char → List α) : List Piece → Option (List α)
  | [] => some []
  | .char c :: rest => (joinPieces sign coded rest).map (sign c ++ ·)
  | .unit hi :: rest =>
    if hi < 0xD800 ∨ 0xE000 ≤ hi then (joinPieces sign coded rest).map (coded (Char.ofNat hi) ++ ·)
    else match rest with
      | .unit lo :: rest =>
        if hi < 0xDC00 ∧ 0xDC00 ≤ lo ∧ lo < 0xE000 then
          (joinPieces sign coded rest).map
            (coded (Char.ofNat (0x10000 + 1024 * (hi - 0xD800) + (lo - 0xDC00))) ++ ·)
        else none
      | _ => none

/-- How the pieces of a string become a text. Some have none. -/
abbrev Spelling := List Piece → Option String

/-- A source of characters: each stands for itself. -/
def ofSigns : Spelling := fun ps =>
  (joinPieces (fun c => [c]) (fun c => [c]) ps).map String.ofList

/-- A source of bytes, each read as the character of its number: together they have to be UTF-8. -/
def ofOctets : Spelling := fun ps =>
  (joinPieces (fun c => [c.toNat.toUInt8]) String.utf8EncodeChar ps).bind fun bytes =>
    String.fromUTF8? ⟨bytes.toArray⟩

/-- A string after its opening quote: its text, or nothing if it has no text, and the rest. -/
def readString (spell : Spelling) (cs : List Char) : Option (Option String × List Char) := do
  let (ps, rest) ← pieces cs
  return (spell ps, rest)

def someDigits (cs : List Char) : Option (List Char × List Char) :=
  match cs.takeWhile isDigit with
  | [] => none
  | digits => some (digits, cs.dropWhile isDigit)

/-- The sign of an exponent: whether it is a minus sign, and the rest. -/
def readSign : List Char → Bool × List Char
  | '-' :: rest => (true, rest)
  | '+' :: rest => (false, rest)
  | rest => (false, rest)

/-- The exponent of a number, if there is one. -/
def readExponent : List Char → Option (Option (Bool × List Char) × List Char)
  | c :: rest =>
    if c = 'e' ∨ c = 'E' then do
      let (negative, rest) := readSign rest
      let (digits, rest) ← someDigits rest
      return (some (negative, digits), rest)
    else some (none, c :: rest)
  | [] => some (none, [])

/-- The digits behind the point of a number, if there is one. -/
def readFraction : List Char → Option (Option (List Char) × List Char)
  | '.' :: rest => (someDigits rest).map fun (digits, rest) => (some digits, rest)
  | rest => some (none, rest)

def readMagnitude (negative : Bool) (cs : List Char) : Option (Literal × List Char) := do
  let (whole, rest) ← someDigits cs
  if whole.head? = some '0' ∧ whole ≠ ['0'] then none
  else
    let (fraction, rest) ← readFraction rest
    let (exponent, rest) ← readExponent rest
    return (⟨negative, whole, fraction, exponent⟩, rest)

def readNumber : List Char → Option (Literal × List Char)
  | '-' :: rest => readMagnitude true rest
  | cs => readMagnitude false cs

/-- The greatest depth of nesting that still has a value. -/
def maxDepth : Nat := 127

/-- A container at a depth, or an unreadable part if that is too deep. -/
def atDepth (depth : Nat) (d : Doc) : Doc := if depth < maxDepth then d else .unreadable

/-- An object, or an unreadable part if a key has no text. -/
def closeObject (members : List (Option String × Doc)) : Doc :=
  match members.mapM fun m => m.1.map fun key => (key, m.2) with
  | some ms => .obj ms
  | none => .unreadable

mutual

/-- A value after blanks. Every call uses up fuel; two units for each sign are enough. -/
def readValue (spell : Spelling) : Nat → Nat → List Char → Option (Doc × List Char)
  | 0, _, _ => none
  | fuel + 1, depth, cs =>
    match skipSpace cs with
    | 'n' :: 'u' :: 'l' :: 'l' :: rest => some (.null, rest)
    | 't' :: 'r' :: 'u' :: 'e' :: rest => some (.bool true, rest)
    | 'f' :: 'a' :: 'l' :: 's' :: 'e' :: rest => some (.bool false, rest)
    | '"' :: rest => (readString spell rest).map fun (text, rest) =>
      (match text with | some s => .str s | none => .unreadable, rest)
    | '[' :: rest => match skipSpace rest with
      | ']' :: rest => some (atDepth depth (.arr []), rest)
      | _ => (readElements spell fuel (depth + 1) rest).map fun (ds, rest) =>
        (atDepth depth (.arr ds), rest)
    | '\x7b' :: rest => match skipSpace rest with
      | '\x7d' :: rest => some (atDepth depth (.obj []), rest)
      | _ => (readMembers spell fuel (depth + 1) rest).map fun (ms, rest) =>
        (atDepth depth (closeObject ms), rest)
    | cs => (readNumber cs).map fun (l, rest) => (l.read, rest)

def readElements (spell : Spelling) : Nat → Nat → List Char → Option (List Doc × List Char)
  | 0, _, _ => none
  | fuel + 1, depth, cs => do
    let (d, rest) ← readValue spell fuel depth cs
    match skipSpace rest with
    | ',' :: rest => do
      let (ds, rest) ← readElements spell fuel depth rest
      return (d :: ds, rest)
    | ']' :: rest => return ([d], rest)
    | _ => none

def readMembers (spell : Spelling) : Nat → Nat → List Char → Option (List (Option String × Doc) × List Char)
  | 0, _, _ => none
  | fuel + 1, depth, cs =>
    match skipSpace cs with
    | '"' :: rest => do
      let (key, rest) ← readString spell rest
      match skipSpace rest with
      | ':' :: rest => do
        let (d, rest) ← readValue spell fuel depth rest
        match skipSpace rest with
        | ',' :: rest => do
          let (ms, rest) ← readMembers spell fuel depth rest
          return ((key, d) :: ms, rest)
        | '\x7d' :: rest => return ([(key, d)], rest)
        | _ => none
      | _ => none
    | _ => none

end

def readSource (spell : Spelling) (fuel : Nat) (cs : List Char) : Option Doc := do
  let (d, rest) ← readValue spell fuel 0 cs
  if skipSpace rest = [] then some d else none

def readText (s : String) : Option Doc := readSource ofSigns (2 * s.utf8ByteSize + 2) s.toList

/-- The tree of a JSON source of bytes. A string that is no UTF-8 is unreadable; elsewhere in the source
there are no such bytes. -/
def readBytes (bytes : List UInt8) : Option Doc :=
  readSource ofOctets (2 * bytes.length + 2) (bytes.map fun b => Char.ofNat b.toNat)

def ofText? (s : String) : Option Json := (readText s).bind Doc.value?

/-- The value of a JSON text given as bytes, which have to be UTF-8. -/
def ofBytes? (bytes : List UInt8) : Option Json := (String.fromUTF8? ⟨bytes.toArray⟩).bind ofText?

end ClusterGate.Json
