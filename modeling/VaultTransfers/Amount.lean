import VaultTransfers.Powers
import VaultTransfers.Text.Blank
import VaultTransfers.Text.Quoted

/-!
Token amounts. An amount is a whole number of a token's smallest unit, below
2^256; its text is a plain decimal in whole tokens. All arithmetic is on
integers, and a division cuts once.
-/

namespace VaultTransfers.Amount

/-- The bound of on-chain integers. -/
def bound : Nat := twoTo 256

/-- Why an amount or an estimate cannot be had from its text. -/
inductive Fault where
  | invalidDecimal (text : String)
  | invalidInteger (text : String)
  | overflow
deriving DecidableEq, Repr

def Fault.message : Fault → String
  | invalidDecimal text => "Invalid decimal amount: " ++ Text.quotedString text
  | invalidInteger text => "Invalid integer: " ++ Text.quotedString text
  | overflow => "Amount overflow while computing estimate"

/-- The digits of a number without leading zeros. -/
def numeral (n : Nat) : List Char :=
  Nat.toDigits 10 n

/-- The last `width` digits of a number. -/
def lastDigits (width n : Nat) : List Char :=
  let digits := numeral n
  List.replicate (width - digits.length) '0' ++ digits

def dropTrailingZeros (cs : List Char) : List Char :=
  (cs.reverse.dropWhile (· = '0')).reverse

/-- The decimal of `value / 10 ^ decimals` in its shortest form: no superfluous zeros on either
side, and no point where there is no fraction. -/
def format (value decimals : Nat) : List Char :=
  let whole := numeral (value / tenTo decimals)
  let fraction := value % tenTo decimals
  if fraction = 0 then whole
  else whole ++ '.' :: dropTrailingZeros (lastDigits decimals fraction)

/-- A plain decimal: `mantissa / 10 ^ scale`. -/
structure Decimal where
  mantissa : Nat
  scale : Nat
deriving DecidableEq, Repr

/-- The parts before and behind the first point; without a point the second is empty. -/
def splitPoint (cs : List Char) : List Char × List Char :=
  (cs.takeWhile (· ≠ '.'), (cs.dropWhile (· ≠ '.')).drop 1)

/-- Digits with at most one point among them, of a number below the bound. -/
def decimal? (cs : List Char) : Option Decimal :=
  let (whole, fraction) := splitPoint cs
  let digits := whole ++ fraction
  if digits = [] ∨ !digits.all Char.isDigit then none
  else
    let mantissa := Nat.ofDigitChars 10 digits 0
    if mantissa < bound ∧ fraction.length < twoTo 32 then some ⟨mantissa, fraction.length⟩ else none

def integer? (cs : List Char) : Option Nat :=
  if cs = [] ∨ !cs.all Char.isDigit then none
  else
    let n := Nat.ofDigitChars 10 cs 0
    if n < bound then some n else none

/-- Reads a decimal between blanks; the fault keeps the whole text. -/
def parseDecimal (text : String) : Except Fault Decimal :=
  match decimal? (Text.trim text.toList) with
  | some d => .ok d
  | none => .error (.invalidDecimal text)

def parseInteger (text : String) : Except Fault Nat :=
  match integer? (Text.trim text.toList) with
  | some n => .ok n
  | none => .error (.invalidInteger text)

/-- The decimals of a quoted price. -/
def priceDecimals : Nat := 8

/-- The decimals of an estimate. -/
def estimateDecimals : Nat := 18

/-- A product below the bound. -/
def mul? (a b : Nat) : Option Nat :=
  if a * b < bound then some (a * b) else none

/-- `amount * price` in units of 10^-18, cut to a whole number of them. -/
def scaledProduct? (amount : Decimal) (price : Nat) : Option Nat := do
  let product ← mul? amount.mantissa price
  let shift := amount.scale + priceDecimals
  if shift ≤ estimateDecimals then mul? product (tenTo (estimateDecimals - shift))
  else some (product / tenTo (shift - estimateDecimals))

/-- A number of units of 10^-18 with all its eighteen decimals. -/
def fixed (units : Nat) : List Char :=
  numeral (units / tenTo estimateDecimals)
    ++ '.' :: lastDigits estimateDecimals (units % tenTo estimateDecimals)

/-- What a withdrawal will pay out at its quoted price. A price of zero is no quote. -/
def estimate (amount minPrice : String) : Except Fault (Option String) := do
  let d ← parseDecimal amount
  let price ← parseInteger minPrice
  if price = 0 then .ok none
  else match scaledProduct? d price with
    | some units => .ok (some (String.ofList (fixed units)))
    | none => .error .overflow

example : format 150000000 8 = "1.5".toList := by decide
example : format 1 255 = "0.".toList ++ List.replicate 254 '0' ++ ['1'] := by decide +kernel

end VaultTransfers.Amount
