/-!
Hexadecimal text: digits in either case when read, lower case when written, and
the reading of a fixed number of bytes with the faults it can have.
-/

namespace VaultTransfers.Text

/-- The value of a hexadecimal digit of either case. -/
def hexValue? (c : Char) : Option Nat :=
  if '0' ≤ c ∧ c ≤ '9' then some (c.toNat - '0'.toNat)
  else if 'a' ≤ c ∧ c ≤ 'f' then some (c.toNat - 'a'.toNat + 10)
  else if 'A' ≤ c ∧ c ≤ 'F' then some (c.toNat - 'A'.toNat + 10)
  else none

def isHexDigit (c : Char) : Bool :=
  (hexValue? c).isSome

/-- The lower-case digit of a value below 16. -/
def hexDigit (n : Nat) : Char :=
  Nat.digitChar n

/-- The lowest `width` hexadecimal digits of `n`, highest first. -/
def hexDigits : (width : Nat) → (n : Nat) → List Char
  | 0, _ => []
  | width + 1, n => hexDigits width (n / 16) ++ [hexDigit (n % 16)]

/-- The number that a list of digits denotes; other characters count as zero. -/
def hexNumber (cs : List Char) : Nat :=
  cs.foldl (fun n c => 16 * n + (hexValue? c).getD 0) 0

/-- Drops one leading `0x` or `0X`. -/
def dropHexMark : List Char → List Char
  | '0' :: 'x' :: cs => cs
  | '0' :: 'X' :: cs => cs
  | cs => cs

/-- The bytes of digit pairs, high digit first; a digit left over is dropped. -/
def hexPairs : List Char → List UInt8
  | high :: low :: cs => UInt8.ofNat (hexNumber [high, low]) :: hexPairs cs
  | _ => []

/-- The size of a text in UTF-8. -/
def byteLength (cs : List Char) : Nat :=
  cs.foldl (fun n c => n + c.utf8Size) 0

/-- The first byte of a character's UTF-8 form. -/
def leadByte (c : Char) : UInt8 :=
  (String.utf8EncodeChar c).headD 0

/-- Why a text is not the bytes it should be. -/
inductive HexFault where
  | oddLength
  | wrongLength
  | badDigit (byte : UInt8) (position : Nat)
deriving DecidableEq, Repr

/-- The first character that is not a digit, with its position. -/
def firstNonDigit? : List Char → (position : Nat) → Option (Char × Nat)
  | [], _ => none
  | c :: cs, i => if isHexDigit c then firstNonDigit? cs (i + 1) else some (c, i)

/-- Reads hexadecimal text of any even length behind an optional mark. Lengths are counted in
UTF-8, and the length is judged before any digit. -/
def readHex (expected? : Option Nat) (text : List Char) : Except HexFault (List Char) :=
  let digits := dropHexMark text
  if byteLength digits % 2 ≠ 0 then .error .oddLength
  else if expected?.any (· * 2 ≠ byteLength digits) then .error .wrongLength
  else match firstNonDigit? digits 0 with
    | some (c, i) => .error (.badDigit (leadByte c) i)
    | none => .ok digits

theorem length_hexDigits (width n : Nat) : (hexDigits width n).length = width := by
  induction width generalizing n with
  | zero => rfl
  | succ width ih => simp [hexDigits, ih]

theorem hexValue_hexDigit {n : Nat} (h : n < 16) : hexValue? (hexDigit n) = some n := by
  revert n
  decide

theorem isHexDigit_of_mem_hexDigits {width n : Nat} {c : Char} (member : c ∈ hexDigits width n) :
    isHexDigit c = true := by
  induction width generalizing n with
  | zero => exact absurd member List.not_mem_nil
  | succ width ih =>
      rcases List.mem_append.mp member with higher | last
      · exact ih higher
      · rw [List.mem_singleton.mp last, isHexDigit, hexValue_hexDigit (Nat.mod_lt n (by omega))]
        rfl

theorem hexNumber_append (cs : List Char) (c : Char) :
    hexNumber (cs ++ [c]) = 16 * hexNumber cs + (hexValue? c).getD 0 := by
  simp [hexNumber]

/-- Written digits denote the number they were written from, up to the width. -/
theorem hexNumber_hexDigits (width n : Nat) : hexNumber (hexDigits width n) = n % Nat.pow 16 width := by
  induction width generalizing n with
  | zero => simp [hexDigits, hexNumber, Nat.mod_one]
  | succ width ih =>
      rw [hexDigits, hexNumber_append, ih, hexValue_hexDigit (Nat.mod_lt n (by omega))]
      rw [Option.getD_some, show Nat.pow 16 (width + 1) = 16 * Nat.pow 16 width from Nat.mul_comm _ _,
        Nat.mod_mul]
      omega

theorem hexDigits_inj {width m n : Nat} (m_lt : m < Nat.pow 16 width) (n_lt : n < Nat.pow 16 width)
    (same : hexDigits width m = hexDigits width n) : m = n := by
  have numbers := congrArg hexNumber same
  rwa [hexNumber_hexDigits, hexNumber_hexDigits, Nat.mod_eq_of_lt m_lt, Nat.mod_eq_of_lt n_lt]
    at numbers

end VaultTransfers.Text
