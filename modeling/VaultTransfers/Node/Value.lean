import VaultTransfers.Evm.Address
import VaultTransfers.Json.Record
import VaultTransfers.Powers

/-!
The values in a node's answers. Hashes, addresses and data are hexadecimal text
or lists of bytes; positions and times are hexadecimal text behind any number of
marks; quantities are integers or text in any of four radices.
-/

namespace VaultTransfers.Node

open Json (Glimpse ShapeFault)

/-- The bytes of a list from the front on, as many as asked for. -/
def firstOctets (size : Nat) : (missing : Nat) → List Json → Except ShapeFault (List UInt8 × List Json)
  | 0, js => .ok ([], js)
  | missing + 1, [] => .error (.invalidLength (size - (missing + 1)) (.exactBytes size))
  | missing + 1, j :: js => do
    let b ← Json.fitOctet (Json.shown j)
    let (bs, rest) ← firstOctets size missing js
    .ok (b :: bs, rest)

/-- A list of exactly `size` bytes. One more element is refused if it is a byte, and passed over
if it is none; behind it nothing may follow. -/
def exactOctets (size : Nat) (items : List Json) : Except ShapeFault (List UInt8) := do
  let (bytes, rest) ← firstOctets size size items
  match rest with
  | [] => .ok bytes
  | extra :: rest =>
    if (Json.fitOctet (Json.shown extra)).toBool then .error (.invalidLength (size + 1) (.exactBytes size))
    else if rest = [] then .ok bytes
    else .error (.invalidLength items.length .fewer)

/-- A number of `size` bytes from hexadecimal text or from a list of bytes. -/
def fixedBytes (size : Nat) : Json → Except ShapeFault Nat
  | .str s =>
    match Text.readHex (some size) s.toList with
    | .ok digits => .ok (Text.hexNumber digits)
    | .error fault => .error (.hex fault)
  | .arr items => do
    let bytes ← exactOctets size items
    .ok (bytes.foldl (fun n b => 256 * n + b.toNat) 0)
  | j => .error (.invalidType (Json.shown j) (.fixedBytes size))

def address (j : Json) : Except ShapeFault Address :=
  (fixedBytes 20 j).map .ofNat

def word (j : Json) : Except ShapeFault Word :=
  (fixedBytes 32 j).map .ofNat

def words : Json → Except ShapeFault (List Word)
  | .arr items => items.mapM word
  | j => .error (.invalidType (Json.shown j) .sequence)

/-- Any number of bytes. -/
def bytes : Json → Except ShapeFault (List UInt8)
  | .str s =>
    match Text.readHex none s.toList with
    | .ok digits => .ok (Text.hexPairs digits)
    | .error _ => .error (.invalidValue (.str s) .validHex)
  | .arr items => items.mapM fun j => Json.fitOctet (Json.shown j)
  | j => .error (.invalidType (Json.shown j) .byteString)

/-- Drops every leading `0x`. -/
def dropMarks : List Char → List Char
  | '0' :: 'x' :: cs => dropMarks cs
  | cs => cs

/-- A count of 64 bits in hexadecimal. -/
def hexCount (j : Json) : Except ShapeFault UInt64 := do
  let s ← Json.fitString (Json.shown j)
  match Text.readNat 16 (twoTo 64) (dropMarks s.toList) with
  | .ok n => .ok (UInt64.ofNat n)
  | .error fault => .error (.integer fault)

def bool (j : Json) : Except ShapeFault Bool :=
  Json.fitBool (Json.shown j)

/-- The radix that a text begins with, and the digits behind its mark. -/
def radixOf : List Char → Nat × List Char
  | '0' :: 'x' :: cs | '0' :: 'X' :: cs => (16, cs)
  | '0' :: 'o' :: cs | '0' :: 'O' :: cs => (8, cs)
  | '0' :: 'b' :: cs | '0' :: 'B' :: cs => (2, cs)
  | cs => (10, cs)

/-- A quantity below 2^64: an integer, or text in the radix of its mark. Underscores between
digits do not count, and no digits at all are zero. -/
def quantity (j : Json) : Except ShapeFault UInt64 :=
  match Json.shown j with
  | .num (.int n) =>
    if 0 ≤ n then .ok (UInt64.ofNat n.toNat) else .error (.invalidType (.num (.int n)) .quantity)
  | .str s =>
    let (radix, digits) := radixOf s.toList
    match Text.addDigits radix (twoTo 64) 0 (digits.filter (· ≠ '_')) with
    | .ok n => .ok (UInt64.ofNat n)
    | .error _ => .error (.invalidValue (.str s) .quantity)
  | g => .error (.invalidType g .quantity)

end VaultTransfers.Node
