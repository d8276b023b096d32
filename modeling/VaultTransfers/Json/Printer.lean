import VaultTransfers.Json.Basic
import VaultTransfers.Text.Hex

/-!
JSON as compact text. A string escapes the quote, the backslash and the controls
below the space, and nothing else.
-/

namespace VaultTransfers.Json

def escape (c : Char) : List Char :=
  if c = '"' then ['\\', '"']
  else if c = '\\' then ['\\', '\\']
  else if c = '\x08' then ['\\', 'b']
  else if c = '\x0c' then ['\\', 'f']
  else if c = '\n' then ['\\', 'n']
  else if c = '\r' then ['\\', 'r']
  else if c = '\t' then ['\\', 't']
  else if c.toNat < 0x20 then '\\' :: 'u' :: Text.hexDigits 4 c.toNat
  else [c]

def renderString (s : String) : List Char :=
  '"' :: (s.toList.flatMap escape ++ ['"'])

def renderInt (n : Int) : List Char :=
  if n < 0 then '-' :: Nat.toDigits 10 n.natAbs else Nat.toDigits 10 n.toNat

def renderNumber : JsonNumber → List Char
  | .int n => renderInt n
  | .float x => x.render

/-- Texts with commas between them. -/
def commaJoined : List (List Char) → List Char
  | [] => []
  | [t] => t
  | t :: ts => t ++ ',' :: commaJoined ts

/-- An object of members whose values are already written. -/
def renderObject (members : List (String × List Char)) : List Char :=
  '\x7b' :: (commaJoined (members.map fun m => renderString m.1 ++ ':' :: m.2) ++ ['\x7d'])

mutual

def render : Json → List Char
  | .null => ['n', 'u', 'l', 'l']
  | .bool true => ['t', 'r', 'u', 'e']
  | .bool false => ['f', 'a', 'l', 's', 'e']
  | .num n => renderNumber n
  | .str s => renderString s
  | .arr items => '[' :: (commaJoined (renderItems items) ++ [']'])
  | .obj members => renderObject (renderMembers members)

def renderItems : List Json → List (List Char)
  | [] => []
  | item :: items => render item :: renderItems items

def renderMembers : List (String × Json) → List (String × List Char)
  | [] => []
  | (name, value) :: members => (name, render value) :: renderMembers members

end

def compact (j : Json) : String :=
  String.ofList j.render

end VaultTransfers.Json
