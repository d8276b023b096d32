import VaultTransfers.Json.Basic
import VaultTransfers.Text.Integer
import VaultTransfers.Text.Quoted
import VaultTransfers.Time.Rfc3339

/-!
What can be wrong with a JSON text. The text may end too early, may not be JSON,
or may be JSON of another shape than was asked for; only the last has a message.
-/

namespace VaultTransfers.Json

/-- What a value shows at first sight; of a list or an object that is only its kind. -/
inductive Glimpse where
  | null
  | bool (b : Bool)
  | num (n : JsonNumber)
  | str (s : String)
  | sequence
  | map
deriving DecidableEq, Repr

def Glimpse.text : Glimpse → String
  | null => "null"
  | bool b => "boolean `" ++ (if b then "true" else "false") ++ "`"
  | num (.int n) => "integer `" ++ toString n ++ "`"
  | num (.float x) => "floating point `" ++ String.ofList x.render ++ "`"
  | str s => "string " ++ Text.quotedString s
  | sequence => "sequence"
  | map => "map"

/-- What was asked for in a place. -/
inductive Expectation where
  | string
  | unsigned64
  | signed64
  | octet
  | boolean
  | sequence
  | date
  | record (name : String)
  | fixedBytes (size : Nat)
  | byteString
  | validHex
  | quantity
  | variantName
  | unit
deriving DecidableEq, Repr

def Expectation.text : Expectation → String
  | string => "a string"
  | unsigned64 => "u64"
  | signed64 => "i64"
  | octet => "u8"
  | boolean => "a boolean"
  | sequence => "a sequence"
  | date => "an RFC 3339 formatted date and time string"
  | record name => "struct " ++ name
  | fixedBytes size => toString size ++ " bytes, represented as a hex string of length "
      ++ toString (2 * size) ++ ", an array of u8, or raw bytes"
  | byteString => "a variable number of bytes represented as a hex string, an array of u8, or raw bytes"
  | validHex => "a valid hex string"
  | quantity => "a 8 byte hex string"
  | variantName => "variant identifier"
  | unit => "unit"

/-- How many elements a list should have had. -/
inductive LengthExpectation where
  | record (name : String) (count : Nat)
  | exactBytes (size : Nat)
  | fewer
deriving DecidableEq, Repr

def LengthExpectation.text : LengthExpectation → String
  | record name count => "struct " ++ name ++ " with " ++ toString count ++ " elements"
  | exactBytes size => "exactly " ++ toString size ++ " bytes"
  | fewer => "fewer elements in array"

/-- Why well-formed JSON is not what was asked for. -/
inductive ShapeFault where
  | invalidType (found : Glimpse) (expected : Expectation)
  | invalidValue (found : Glimpse) (expected : Expectation)
  | invalidLength (length : Nat) (expected : LengthExpectation)
  | unknownVariant (name : String) (variants : List String)
  | missingField (name : String)
  | duplicateField (name : String)
  | hex (fault : Text.HexFault)
  | integer (fault : Text.IntegerFault)
  | date (fault : DateFault)
deriving DecidableEq, Repr

def ticked (name : String) : String :=
  "`" ++ name ++ "`"

def hexMessage : Text.HexFault → String
  | .oddLength => "odd number of digits"
  | .wrongLength => "invalid string length"
  | .badDigit byte position =>
    "invalid character " ++ String.ofList (Text.quotedChar (Char.ofNat byte.toNat))
      ++ " at position " ++ toString position

def ShapeFault.message : ShapeFault → String
  | invalidType found expected => "invalid type: " ++ found.text ++ ", expected " ++ expected.text
  | invalidValue found expected => "invalid value: " ++ found.text ++ ", expected " ++ expected.text
  | invalidLength length expected =>
    "invalid length " ++ toString length ++ ", expected " ++ expected.text
  | unknownVariant name variants =>
    "unknown variant " ++ ticked name ++ ", expected one of " ++ ", ".intercalate (variants.map ticked)
  | missingField name => "missing field " ++ ticked name
  | duplicateField name => "duplicate field " ++ ticked name
  | hex fault => hexMessage fault
  | integer fault => fault.message
  | date fault => fault.message

/-- Why a text cannot be read. -/
inductive ReadFault where
  | ended
  | malformed
  | shape (fault : ShapeFault)
deriving DecidableEq, Repr

end VaultTransfers.Json
