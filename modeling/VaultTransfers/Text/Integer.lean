import VaultTransfers.Powers
import VaultTransfers.Text.Hex

/-!
Integers of a fixed range in a text of digits. The first character that spoils
the number decides the fault: a character that is no digit, or the digit with
which the number leaves its range.
-/

namespace VaultTransfers.Text

/-- Why a text is not an integer of its range. -/
inductive IntegerFault where
  | empty
  | badDigit
  | tooLarge
deriving DecidableEq, Repr

def IntegerFault.message : IntegerFault → String
  | empty => "cannot parse integer from empty string"
  | badDigit => "invalid digit found in string"
  | tooLarge => "number too large to fit in target type"

/-- The value of a digit of the radix. -/
def digitValue? (radix : Nat) (c : Char) : Option Nat :=
  (hexValue? c).filter (· < radix)

/-- Adds digits to the number read so far, which stays below the bound. -/
def addDigits (radix bound : Nat) : (read : Nat) → List Char → Except IntegerFault Nat
  | n, [] => .ok n
  | n, c :: cs =>
    match digitValue? radix c with
    | none => .error .badDigit
    | some d => if radix * n + d < bound then addDigits radix bound (radix * n + d) cs else .error .tooLarge

/-- Digits with an optional plus in front. -/
def readNat (radix bound : Nat) (cs : List Char) : Except IntegerFault Nat :=
  match cs with
  | [] => .error .empty
  | ['+'] => .error .badDigit
  | '+' :: digits => addDigits radix bound 0 digits
  | digits => addDigits radix bound 0 digits

def natBelow? (bound : Nat) (cs : List Char) : Option Nat :=
  (readNat 10 bound cs).toOption

/-- A signed integer of 64 bits, with an optional sign. -/
def int64? : List Char → Option Int
  | ['-'] => none
  | '-' :: digits => (addDigits 10 (twoTo 63 + 1) 0 digits).toOption.map fun n => -(n : Int)
  | cs => (natBelow? (twoTo 63) cs).map fun n => (n : Int)

end VaultTransfers.Text
