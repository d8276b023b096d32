import VaultTransfers.Evm.Keccak
import VaultTransfers.Powers
import VaultTransfers.Text.Hex

/-!
Addresses of accounts and contracts, and the 256-bit words of hashes, topics and
event data. An address is shown with the letter case that encodes its checksum:
a letter is a capital where the matching digit of the hash of the lower-case
form is 8 or more.
-/

namespace VaultTransfers

/-- The 20 bytes of an account or a contract. -/
structure Address where
  bits : BitVec 160
deriving DecidableEq, Repr

/-- The 32 bytes of a hash, a topic or a slot of event data. -/
structure Word where
  bits : BitVec 256
deriving DecidableEq, Repr

namespace Address

def ofNat (n : Nat) : Address :=
  ⟨BitVec.ofNat 160 n⟩

/-- The forty lower-case digits, without a mark. -/
def digits (a : Address) : List Char :=
  Text.hexDigits 40 a.bits.toNat

/-- The form `0x` and forty lower-case digits. -/
def text (a : Address) : String :=
  String.ofList ('0' :: 'x' :: a.digits)

/-- Sets each letter to upper case where the digit beside it is 8 or more. -/
def withCase : List Char → (checks : List Char) → List Char
  | c :: cs, k :: ks =>
    (if 8 ≤ (Text.hexValue? k).getD 0 then c.toUpper else c) :: withCase cs ks
  | cs, _ => cs

/-- The digits of the hash whose size decides the letter case. -/
def caseDigits (a : Address) : List Char :=
  (Keccak.digest (a.digits.map fun c => UInt8.ofNat c.toNat)).flatMap fun b =>
    Text.hexDigits 2 b.toNat

/-- The checksummed form, the spelling that the whole pipeline uses. -/
def checksummed (a : Address) : String :=
  String.ofList ('0' :: 'x' :: withCase a.digits a.caseDigits)

/-- Reads forty digits of any case behind an optional mark; the checksum is not judged. -/
def ofText (cs : List Char) : Except Text.HexFault Address :=
  (Text.readHex (some 20) cs).map fun digits => ofNat (Text.hexNumber digits)

end Address

namespace Word

def ofNat (n : Nat) : Word :=
  ⟨BitVec.ofNat 256 n⟩

def toNat (w : Word) : Nat :=
  w.bits.toNat

/-- The form `0x` and sixty-four lower-case digits. -/
def text (w : Word) : String :=
  String.ofList ('0' :: 'x' :: Text.hexDigits 64 w.toNat)

/-- The address in the low 20 bytes. -/
def address (w : Word) : Address :=
  Address.ofNat w.toNat

/-- A number from bytes, highest first. -/
def ofBytes (bytes : List UInt8) : Word :=
  ofNat (bytes.foldl (fun n b => 256 * n + b.toNat) 0)

def ofText (cs : List Char) : Except Text.HexFault Word :=
  (Text.readHex (some 32) cs).map fun digits => ofNat (Text.hexNumber digits)

theorem toNat_lt (w : Word) : w.toNat < twoTo 256 :=
  w.bits.isLt

theorem text_inj {v w : Word} (same : v.text = w.text) : v = w := by
  have digits : Text.hexDigits 64 v.toNat = Text.hexDigits 64 w.toNat := by
    have chars := congrArg String.toList same
    simp only [text, String.toList_ofList] at chars
    exact (List.cons.inj (List.cons.inj chars).2).2
  have numbers := Text.hexDigits_inj v.bits.isLt w.bits.isLt digits
  exact congrArg Word.mk (BitVec.eq_of_toNat_eq numbers)

end Word

end VaultTransfers
