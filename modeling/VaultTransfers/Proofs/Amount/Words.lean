import VaultTransfers.Proofs.Amount.Numeral

/-!
Amounts in words. The texts of amounts and the estimates are computed here as on
words of 256 bits and scales of 32, by arithmetic that refuses to wrap around and
to divide by zero. They come to the same as on numbers: a power of ten may be
beyond a word, but it then leaves nothing of a word that it divides.
-/

namespace VaultTransfers.Amount

/-- What arithmetic on words must not come to. -/
inductive Slip where
  | wrapped
  | dividedByZero

namespace Strict

/-- A sum of 32 bits. -/
def add (a b : Nat) : Except Slip Nat :=
  if a + b < twoTo 32 then .ok (a + b) else .error .wrapped

/-- A difference that is not negative. -/
def sub (a b : Nat) : Except Slip Nat :=
  if b ≤ a then .ok (a - b) else .error .wrapped

def div (a b : Nat) : Except Slip Nat :=
  if b = 0 then .error .dividedByZero else .ok (a / b)

def mod (a b : Nat) : Except Slip Nat :=
  if b = 0 then .error .dividedByZero else .ok (a % b)

/-- A power of ten of 256 bits. -/
def power? (k : Nat) : Option Nat :=
  if tenTo k < bound then some (tenTo k) else none

/-- Whole tokens and what is left of one. Where the token's unit is beyond a word, so is every amount
below one token. -/
def parts (value decimals : Nat) : Except Slip (Nat × Nat) :=
  match power? decimals with
  | none => .ok (0, value)
  | some unit => do
    let whole ← div value unit
    let fraction ← mod value unit
    .ok (whole, fraction)

def format (value decimals : Nat) : Except Slip (List Char) :=
  if decimals = 0 then .ok (numeral value)
  else do
    let (whole, fraction) ← parts value decimals
    .ok (if fraction = 0 then numeral whole
      else numeral whole ++ '.' :: dropTrailingZeros (lastDigits decimals fraction))

/-- The amount at the price in units of 10^-18. A power beyond 256 bits leaves nothing of the
product that it divides. -/
def scaledProduct? (amount : Decimal) (price : Nat) : Except Slip (Option Nat) :=
  match mul? amount.mantissa price with
  | none => .ok none
  | some product => do
    let shift ← add amount.scale priceDecimals
    if shift ≤ estimateDecimals then
      let k ← sub estimateDecimals shift
      .ok ((power? k).bind (mul? product))
    else
      let k ← sub shift estimateDecimals
      match power? k with
      | none => .ok (some 0)
      | some divisor => (div product divisor).map some

def fixed (units : Nat) : Except Slip (Option (List Char)) :=
  match power? estimateDecimals with
  | none => .ok none
  | some unit => do
    let whole ← div units unit
    let fraction ← mod units unit
    .ok (some (numeral whole ++ '.' :: lastDigits estimateDecimals fraction))

/-- The estimate, computed in words: scales of 32 bits, all else of 256. -/
def estimate (amount minPrice : String) : Except Slip (Except Fault (Option String)) :=
  match parseDecimal amount, parseInteger minPrice with
  | .error fault, _ => .ok (.error fault)
  | .ok _, .error fault => .ok (.error fault)
  | .ok d, .ok price =>
    if price = 0 then .ok (.ok none)
    else do
      match ← scaledProduct? d price with
      | none => .ok (.error .overflow)
      | some units =>
        match ← fixed units with
        | none => .ok (.error .overflow)
        | some text => .ok (.ok (some (String.ofList text)))

variable {d : Decimal} {price value decimals n k : Nat}

theorem power?_of_le (small : k ≤ 18) : power? k = some (tenTo k) :=
  if_pos (Nat.lt_of_le_of_lt (tenTo_le small) (by decide))

theorem eq_of_power? (power : power? k = some n) : n = tenTo k := by
  unfold power? at power
  split at power
  · exact (Option.some.inj power).symm
  · cases power

/-- A word is below every power that is beyond words. -/
theorem lt_of_power? (small : n < bound) (beyond : power? k = none) : n < tenTo k := by
  unfold power? at beyond
  split at beyond
  · cases beyond
  · rename_i large
    exact Nat.lt_of_lt_of_le small (Nat.le_of_not_lt large)

theorem lt_of_mul? {a b : Nat} (product : mul? a b = some n) : n < bound := by
  unfold mul? at product
  split at product
  · rename_i fits
    exact Option.some.inj product ▸ fits
  · cases product

theorem div_tenTo (a k : Nat) : div a (tenTo k) = .ok (a / tenTo k) :=
  if_neg (Nat.ne_of_gt (tenTo_pos k))

theorem mod_tenTo (a k : Nat) : mod a (tenTo k) = .ok (a % tenTo k) :=
  if_neg (Nat.ne_of_gt (tenTo_pos k))

theorem parts_eq (small : value < bound) :
    parts value decimals = .ok (value / tenTo decimals, value % tenTo decimals) := by
  unfold parts
  cases power : power? decimals with
  | none =>
      have below := lt_of_power? small power
      rw [Nat.div_eq_of_lt below, Nat.mod_eq_of_lt below]
  | some unit =>
      simp only [eq_of_power? power, div_tenTo, mod_tenTo, bind, Except.bind]

/-- The text of an amount is computed without a slip. -/
theorem format_eq (small : value < bound) :
    format value decimals = .ok (Amount.format value decimals) := by
  unfold format Amount.format
  by_cases whole : decimals = 0
  · simp only [whole, if_true, tenTo_zero, Nat.div_one, Nat.mod_one]
  · simp only [whole, if_false, parts_eq small, bind, Except.bind]

theorem scaledProduct?_eq (short : d.scale + 8 < twoTo 32) :
    scaledProduct? d price = .ok (Amount.scaledProduct? d price) := by
  have shift : add d.scale priceDecimals = .ok (d.scale + priceDecimals) := if_pos short
  unfold scaledProduct? Amount.scaledProduct?
  cases product : mul? d.mantissa price with
  | none => rfl
  | some n =>
      simp only [shift, bind, Except.bind, Option.bind_some]
      by_cases below : d.scale + priceDecimals ≤ estimateDecimals
      · have rest : sub estimateDecimals (d.scale + priceDecimals) = .ok _ := if_pos below
        have few : estimateDecimals - (d.scale + priceDecimals) ≤ 18 := Nat.sub_le _ _
        simp only [below, rest, if_true, power?_of_le few, Option.bind_some]
      · have rest : sub (d.scale + priceDecimals) estimateDecimals = .ok _ :=
          if_pos (Nat.le_of_not_le below)
        simp only [below, rest, if_false]
        cases power : power? (d.scale + priceDecimals - estimateDecimals) with
        | none => rw [Nat.div_eq_of_lt (lt_of_power? (lt_of_mul? product) power)]
        | some divisor =>
            simp only [eq_of_power? power, div_tenTo]
            rfl

theorem fixed_eq (n : Nat) : fixed n = .ok (some (Amount.fixed n)) := by
  have unit : power? estimateDecimals = some (tenTo estimateDecimals) := power?_of_le (Nat.le_refl 18)
  simp only [fixed, unit, div_tenTo, mod_tenTo, bind, Except.bind]
  rfl

/-- No step of the computation wraps around or divides by zero. -/
theorem estimate_eq {amount minPrice : String}
    (short : ∀ d, parseDecimal amount = .ok d → d.scale + 8 < twoTo 32) :
    estimate amount minPrice = .ok (Amount.estimate amount minPrice) := by
  unfold estimate Amount.estimate
  cases read : parseDecimal amount with
  | error fault => rfl
  | ok d =>
      cases quoted : parseInteger minPrice with
      | error fault => rfl
      | ok price =>
          simp only [bind, Except.bind]
          by_cases zero : price = 0
          · simp only [zero, if_true]
          · simp only [zero, if_false, scaledProduct?_eq (short d read)]
            cases Amount.scaledProduct? d price with
            | none => rfl
            | some n => simp only [fixed_eq]

end Strict

end VaultTransfers.Amount
