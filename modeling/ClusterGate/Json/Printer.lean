import ClusterGate.Json.Basic
import ClusterGate.Json.Shortest

/-!
# Writing JSON text

Two layouts: on one line without blanks, and over several lines with two blanks for each depth.
-/

namespace ClusterGate.Json

def smallHex (n : Nat) : Char := if n < 10 then Char.ofNat (48 + n) else Char.ofNat (87 + n)

def writeChar (c : Char) : List Char :=
  if c = '"' ∨ c = '\\' then ['\\', c]
  else if c = '\x08' then ['\\', 'b']
  else if c = '\x0c' then ['\\', 'f']
  else if c = '\n' then ['\\', 'n']
  else if c = '\r' then ['\\', 'r']
  else if c = '\t' then ['\\', 't']
  else if c.toNat < 0x20 then
    ['\\', 'u', '0', '0', smallHex (c.toNat / 16), smallHex (c.toNat % 16)]
  else [c]

def writeString (s : String) : List Char := '"' :: s.toList.flatMap writeChar ++ ['"']

def writeInt (n : Int) : List Char :=
  if n < 0 then '-' :: Nat.toDigits 10 n.natAbs else Nat.toDigits 10 n.natAbs

mutual

def write : Json → List Char
  | .null => ['n', 'u', 'l', 'l']
  | .bool true => ['t', 'r', 'u', 'e']
  | .bool false => ['f', 'a', 'l', 's', 'e']
  | .int n => writeInt n
  | .double d => d.text
  | .str s => writeString s
  | .arr elements => '[' :: writeElements elements ++ [']']
  | .obj members => '\x7b' :: writeMembers members ++ ['\x7d']

def writeElements : List Json → List Char
  | [] => []
  | [v] => write v
  | v :: rest => write v ++ ',' :: writeElements rest

def writeMembers : List (String × Json) → List Char
  | [] => []
  | [(k, v)] => writeString k ++ ':' :: write v
  | (k, v) :: rest => writeString k ++ ':' :: write v ++ ',' :: writeMembers rest

end

def breakLine (depth : Nat) : List Char := '\n' :: List.replicate (2 * depth) ' '

mutual

/-- A value over several lines, its first line being at a depth already. -/
def layOut (depth : Nat) : Json → List Char
  | .arr (v :: rest) =>
    '[' :: breakLine (depth + 1) ++ layOutElements (depth + 1) (v :: rest) ++ breakLine depth ++ [']']
  | .obj (m :: rest) =>
    '\x7b' :: breakLine (depth + 1) ++ layOutMembers (depth + 1) (m :: rest) ++ breakLine depth ++
      ['\x7d']
  | .null => ['n', 'u', 'l', 'l']
  | .bool true => ['t', 'r', 'u', 'e']
  | .bool false => ['f', 'a', 'l', 's', 'e']
  | .int n => writeInt n
  | .double d => d.text
  | .str s => writeString s
  | .arr [] => ['[', ']']
  | .obj [] => ['\x7b', '\x7d']

def layOutElements (depth : Nat) : List Json → List Char
  | [] => []
  | [v] => layOut depth v
  | v :: rest => layOut depth v ++ ',' :: breakLine depth ++ layOutElements depth rest

def layOutMembers (depth : Nat) : List (String × Json) → List Char
  | [] => []
  | [(k, v)] => writeString k ++ ':' :: ' ' :: layOut depth v
  | (k, v) :: rest =>
    writeString k ++ ':' :: ' ' :: layOut depth v ++ ',' :: breakLine depth ++
      layOutMembers depth rest

end

def compact (v : Json) : String := String.ofList (write v)

def pretty (v : Json) : String := String.ofList (layOut 0 v)

end ClusterGate.Json
