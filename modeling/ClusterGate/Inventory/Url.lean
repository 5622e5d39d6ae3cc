import ClusterGate.Inventory.Host

/-!
# Absolute HTTP URLs

Where a request goes and what it carries. Other schemes and relative references are refused, since no
request can be made for them.
-/

namespace ClusterGate.Inventory

open Text

/-! ### Percent encoding -/

def hexDigit (n : Nat) : Char := if n < 10 then Char.ofNat (48 + n) else Char.ofNat (55 + n)

def percentByte (b : UInt8) : List Char := ['%', hexDigit (b.toNat / 16), hexDigit (b.toNat % 16)]

def percentChar (c : Char) : List Char := (String.utf8EncodeChar c).flatMap percentByte

/-- Characters that a form value keeps: letters, digits and `*`, `-`, `.`, `_`. -/
def isFormKept (c : Char) : Bool :=
  ('a' ≤ c && c ≤ 'z') || ('A' ≤ c && c ≤ 'Z') || ('0' ≤ c && c ≤ '9') ||
  c == '*' || c == '-' || c == '.' || c == '_'

/-- A name or value of a form: a space becomes a plus sign, other characters that are not kept are
percent encoded. -/
def formEncode (s : String) : String :=
  String.ofList (s.toList.flatMap fun c =>
    if c = ' ' then ['+'] else if isFormKept c then [c] else percentChar c)

/-- Name and value pairs of a form, joined by ampersands. -/
def formPairs (pairs : List (String × String)) : String :=
  "&".intercalate (pairs.map fun pair => formEncode pair.1 ++ "=" ++ formEncode pair.2)

/-! ### URLs -/

structure Url where
  /-- Asks for an encrypted connection. -/
  secure : Bool
  user : List Char
  host : Host
  port : Nat
  /-- The path, cut at its slashes and encoded. -/
  path : List String
  query : Option String
deriving DecidableEq, Repr

namespace Url

/-- A slash; the backslash counts as one. -/
def isSlash (c : Char) : Bool := c == '/' || c == '\\'

/-- Line breaks and tabs are not part of a URL, nor are blanks around it. -/
def tidy (cs : List Char) : List Char :=
  let cs := cs.filter fun c => c ≠ '\t' && c ≠ '\n' && c ≠ '\r'
  ((cs.dropWhile (· ≤ ' ')).reverse.dropWhile (· ≤ ' ')).reverse

/-- Whether a scheme is that of encrypted connections, if it is one of the two of HTTP. -/
def isSecure? (scheme : List Char) : Option Bool :=
  if scheme.map lower = "http".toList then some false
  else if scheme.map lower = "https".toList then some true
  else none

/-- What the scheme says of the connection, and what follows the scheme. -/
def afterScheme? (cs : List Char) : Option (Bool × List Char) :=
  match cs.dropWhile (· ≠ ':') with
  | _ :: rest => (isSecure? (cs.takeWhile (· ≠ ':'))).map fun secure => (secure, rest.dropWhile isSlash)
  | [] => none

/-- Whether a character has to be encoded: control characters, those beyond ASCII, and some more. -/
def isEncoded (more : String) (c : Char) : Bool :=
  c ≤ ' ' || '\x7f' ≤ c || more.toList.contains c

def encodePart (more : String) (cs : List Char) : String :=
  String.ofList (cs.flatMap fun c => if isEncoded more c then percentChar c else [c])

def encodedInPath : String := "\"<>`#?\x7b\x7d"

def encodedInQuery : String := "\"#<>'"

/-- Whether a segment stands for the directory itself. -/
def isDot (segment : String) : Bool :=
  [".", "%2e"].any (sameIgnoringCase segment)

/-- Whether a segment stands for the directory above. -/
def isDotDot (segment : String) : Bool :=
  ["..", ".%2e", "%2e.", "%2e%2e"].any (sameIgnoringCase segment)

/-- Follows the dot segments of a path. A path that ends in one ends in a slash. -/
def followDots (before : List String) : List String → List String
  | [] => before
  | [segment] =>
    if isDotDot segment then before.dropLast ++ [""]
    else if isDot segment then before ++ [""]
    else before ++ [segment]
  | segment :: rest =>
    if isDotDot segment then followDots before.dropLast rest
    else if isDot segment then followDots before rest
    else followDots (before ++ [segment]) rest

/-- The path of a URL, from its text: nothing, or a slash and what follows it. -/
def pathOf (cs : List Char) : List String :=
  let cs := cs.map fun c => if c = '\\' then '/' else c
  followDots [] ((pieces '/' (cs.drop 1)).map (encodePart encodedInPath))

def parse? (text : String) : Option Url := do
  let (secure, rest) ← afterScheme? (tidy text.toList)
  let ends (c : Char) : Bool := isSlash c || c == '?' || c == '#'
  let authority := rest.takeWhile fun c => !ends c
  let rest := (rest.dropWhile fun c => !ends c).takeWhile (· ≠ '#')
  let query := match rest.dropWhile (· ≠ '?') with
    | _ :: q => some (encodePart encodedInQuery q)
    | [] => none
  let place ← Authority.read? authority
  return {
    secure := secure
    user := place.user
    host := place.host
    port := place.port.getD (if secure then 443 else 80)
    path := pathOf (rest.takeWhile (· ≠ '?'))
    query := query }

def addPairs (u : Url) (pairs : List (String × String)) : Url :=
  let added := formPairs pairs
  if pairs = [] then u else { u with query := match u.query with
    | none => some added
    | some q => some (if q = "" then added else q ++ "&" ++ added) }

def target (u : Url) : String :=
  "/" ++ "/".intercalate u.path ++ match u.query with
    | some q => "?" ++ q
    | none => ""

end Url

end ClusterGate.Inventory
