import ClusterGate.Json.Basic
import ClusterGate.Text.Basic

/-!
# JSON pointers

A pointer is a sequence of tokens, each behind a slash. Inside a token the tilde is written `~0` and
the slash `~1`.
-/

namespace ClusterGate.Pointer

def escapeChars : List Char → List Char
  | [] => []
  | '~' :: rest => '~' :: '0' :: escapeChars rest
  | '/' :: rest => '~' :: '1' :: escapeChars rest
  | c :: rest => c :: escapeChars rest

def escape (token : String) : String := String.ofList (escapeChars token.toList)

/-- Reads an escaped token back; a tilde without `0` or `1` behind it is refused. -/
def unescapeChars : List Char → Option (List Char)
  | [] => some []
  | '~' :: '0' :: rest => (unescapeChars rest).map ('~' :: ·)
  | '~' :: '1' :: rest => (unescapeChars rest).map ('/' :: ·)
  | c :: rest => if c = '~' then none else (unescapeChars rest).map (c :: ·)

/-- The tokens of a pointer; the empty text points to the whole document. -/
def tokens? (path : String) : Option (List String) :=
  match path.toList with
  | [] => some []
  | '/' :: rest => (Text.pieces '/' rest).mapM fun part => (unescapeChars part).map String.ofList
  | _ => none

def isPointer (path : String) : Bool := (tokens? path).isSome

/-- One step down: a key and an index are written alike. -/
def push (path token : String) : String := path ++ "/" ++ escape token

def ofTokens (tokens : List String) : String := tokens.foldl push ""

end ClusterGate.Pointer
