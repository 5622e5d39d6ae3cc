import ClusterGate.Inventory.Config
import ClusterGate.Inventory.Url

/-!
# Calls and requests

A listing makes calls: a URL, what is added to its query, and the token that goes with it. What becomes
of a call is up to who carries it out. Here a call becomes one request of HTTP, if one can be made.
-/

namespace ClusterGate.Inventory

structure Call where
  url : String
  query : List (String × String)
  token : Option String
deriving DecidableEq, Repr

namespace Config

def skusUrl (c : Config) : String :=
  String.ofList (c.endpoint.toList.reverse.dropWhile (· == '/')).reverse ++ "/subscriptions/" ++
    c.subscriptionId ++ "/providers/Microsoft.Compute/skus"

def firstCall (c : Config) (filter : String) : Call :=
  ⟨c.skusUrl, [("api-version", c.apiVersion), ("$filter", filter)], c.token⟩

def linkCall (c : Config) (link : String) : Call := ⟨link, [], c.token⟩

end Config

/-! ### Requests -/

/-- A request, as the other side gets it. -/
structure Request where
  secure : Bool
  host : Host
  port : Nat
  target : String
  /-- The headers that tell who asks, in their order. -/
  authorizations : List String
  userAgent : String
deriving DecidableEq, Repr

/-- Whether a text can stand in a header: no control characters but tabs. -/
def isHeaderValue (s : String) : Bool :=
  s.toList.all fun c => c == '\t' || (' ' ≤ c && c ≠ '\x7f')

/-- A header value as the other side gets it: blanks at its end do not count. -/
def headerValue (s : String) : String :=
  String.ofList (s.toList.reverse.dropWhile fun c => c == ' ' || c == '\t').reverse

def base64Digit (n : Nat) : Char :=
  if n < 26 then Char.ofNat (65 + n)
  else if n < 52 then Char.ofNat (71 + n)
  else if n < 62 then Char.ofNat (n - 4)
  else if n = 62 then '+' else '/'

/-- Bytes as text, three of them as four digits to the base 64. -/
def base64 : List UInt8 → List Char
  | a :: b :: c :: rest =>
    let n := 65536 * a.toNat + 256 * b.toNat + c.toNat
    base64Digit (n / 262144) :: base64Digit (n / 4096 % 64) :: base64Digit (n / 64 % 64) ::
      base64Digit (n % 64) :: base64 rest
  | [a, b] =>
    let n := 1024 * a.toNat + 4 * b.toNat
    [base64Digit (n / 4096), base64Digit (n / 64 % 64), base64Digit (n % 64), '=']
  | [a] => [base64Digit (a.toNat / 4), base64Digit (16 * a.toNat % 64), '=', '=']
  | [] => []

/-- The header for the user that a URL names, perhaps with a password. -/
def Url.basicAuthorization? (u : Url) : Option String := do
  let name ← percentDecode? (u.user.takeWhile (· ≠ ':'))
  let password := match u.user.dropWhile (· ≠ ':') with
    | _ :: c :: rest => percentDecode? (c :: rest)
    | _ => none
  if name = "" ∧ password = none then none
  else return "Basic " ++ String.ofList (base64 (name ++ ":" ++ password.getD "").toUTF8.toList)

namespace Call

/-- The header for the token of a call. -/
def bearerAuthorization? (call : Call) : Option String :=
  call.token.map fun token => headerValue ("Bearer " ++ token)

def request? (call : Call) : Option Request := do
  let url := (← Url.parse? call.url).addPairs call.query
  if call.token.all isHeaderValue then
    return {
      secure := url.secure
      host := url.host
      port := url.port
      target := url.target
      authorizations := url.basicAuthorization?.toList ++ call.bearerAuthorization?.toList
      userAgent := userAgent }
  else none

end Call

end ClusterGate.Inventory
