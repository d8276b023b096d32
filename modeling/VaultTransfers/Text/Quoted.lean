import VaultTransfers.Text.Hex
import VaultTransfers.Text.Printable

/-!
Text shown inside a message: in quotes, on one line, with nothing invisible in
it. A quote, a backslash and the four common controls have short escapes; every
other character that is not printable is written by its number.
-/

namespace VaultTransfers.Text

/-- Hexadecimal digits without leading zeros. -/
def hexNumeral (n : Nat) : List Char :=
  Nat.toDigits 16 n

/-- A scalar written by its number, as in `\u{1f}`. -/
def numberEscape (c : Char) : List Char :=
  '\\' :: 'u' :: '\x7b' :: (hexNumeral c.toNat ++ ['\x7d'])

/-- The visible form of a character; `mark` is the quote around the text. -/
def visible (mark c : Char) : List Char :=
  if c = mark ∨ c = '\\' then ['\\', c]
  else if c = '\x00' then ['\\', '0']
  else if c = '\t' then ['\\', 't']
  else if c = '\r' then ['\\', 'r']
  else if c = '\n' then ['\\', 'n']
  else if isPrintable c then [c]
  else numberEscape c

/-- A text in double quotes. -/
def quoted (cs : List Char) : List Char :=
  '"' :: (cs.flatMap (visible '"') ++ ['"'])

/-- A character in single quotes. -/
def quotedChar (c : Char) : List Char :=
  '\'' :: (visible '\'' c ++ ['\''])

def quotedString (s : String) : String :=
  String.ofList (quoted s.toList)

example : quotedString "a\t\"\\\x1f" = "\"a\\t\\\"\\\\\\u\x7b1f\x7d\"" := by decide +kernel

end VaultTransfers.Text
