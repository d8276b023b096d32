import Mathlib.Algebra.Order.Floor.Semifield
import Mathlib.Data.Nat.Cast.Order.Field
import Mathlib.Data.Rat.Floor
import Mathlib.Tactic.FieldSimp
import VaultTransfers.Proofs.Amount.Canonical

/-!
What a withdrawal will pay out. The estimate is the product of amount and price in
units of 10^-18, cut once and never rounded up; there is none if the product, or
the product in those units, has more than 256 bits.
-/

namespace VaultTransfers.Amount

/-- An amount at a price, in units of 10^-18 and cut to a whole number of them. -/
def units (d : Decimal) (price : Nat) : Nat :=
  d.mantissa * price * tenTo 10 / tenTo d.scale

/-- The product of mantissa and price has more than 256 bits, or has them in units of 10^-18. -/
def Overflows (d : Decimal) (price : Nat) : Prop :=
  bound ≤ d.mantissa * price ∨
    d.scale ≤ 10 ∧ bound ≤ d.mantissa * price * tenTo (10 - d.scale)

instance (d : Decimal) (price : Nat) : Decidable (Overflows d price) :=
  inferInstanceAs (Decidable (_ ∨ _ ∧ _))

section

variable {d : Decimal} {price : Nat}

theorem units_of_le (short : d.scale ≤ 10) :
    units d price = d.mantissa * price * tenTo (10 - d.scale) := by
  have power : tenTo 10 = tenTo (10 - d.scale) * tenTo d.scale := by
    rw [← tenTo_add, Nat.sub_add_cancel short]
  rw [units, power, ← Nat.mul_assoc, Nat.mul_div_cancel _ (tenTo_pos d.scale)]

theorem units_of_ge (long : 10 ≤ d.scale) :
    units d price = d.mantissa * price / tenTo (d.scale - 10) := by
  have power : tenTo d.scale = tenTo (d.scale - 10) * tenTo 10 := by
    rw [← tenTo_add, Nat.sub_add_cancel long]
  rw [units, power, Nat.mul_div_mul_right _ _ (tenTo_pos 10)]

theorem scaledProduct?_eq :
    scaledProduct? d price = if Overflows d price then none else some (units d price) := by
  unfold scaledProduct? mul? Overflows
  simp only [priceDecimals, estimateDecimals]
  by_cases fits : d.mantissa * price < bound
  · simp only [fits, if_true, Option.bind_eq_bind, Option.bind_some, Nat.not_le.mpr fits, false_or]
    by_cases short : d.scale ≤ 10
    · have shift : d.scale + 8 ≤ 18 := by omega
      have rest : 18 - (d.scale + 8) = 10 - d.scale := by omega
      by_cases fits' : d.mantissa * price * tenTo (10 - d.scale) < bound
      · simp only [shift, rest, short, fits', if_true, Nat.not_le.mpr fits', and_false, if_false,
          units_of_le short]
      · simp only [shift, rest, short, fits', if_true, Nat.not_lt.mp fits', and_true, if_false]
    · have shift : ¬ d.scale + 8 ≤ 18 := by omega
      have rest : d.scale + 8 - 18 = d.scale - 10 := by omega
      simp only [shift, rest, short, if_false, false_and, units_of_ge (Nat.le_of_not_le short)]
  · simp only [fits, Nat.not_lt.mp fits, true_or, if_true, if_false, Option.bind_eq_bind,
      Option.bind_none]

/-- The estimate of texts that are read. -/
theorem estimate_of_parsed {amount minPrice : String} (read : parseDecimal amount = .ok d)
    (quoted : parseInteger minPrice = .ok price) :
    estimate amount minPrice =
      if price = 0 then .ok none
      else if Overflows d price then .error .overflow
      else .ok (some (String.ofList (fixed (units d price)))) := by
  simp only [estimate, read, quoted, bind, Except.bind, scaledProduct?_eq]
  by_cases zero : price = 0
  · simp only [zero, if_true]
  · by_cases exceeds : Overflows d price
    · simp only [zero, exceeds, if_true, if_false]
    · simp only [zero, exceeds, if_false]

end

/-- A quote in units of 10^-18 is exact, for amount and price have eight decimals each; it is told if
it has 256 bits. -/
theorem estimate_format {value price : Nat} (small : value < bound) (cheap : price < bound) :
    estimate (String.ofList (format value 8)) (String.ofList (numeral price)) =
      if price = 0 then .ok none
      else if value * price * 100 < bound then
        .ok (some (String.ofList (fixed (value * price * 100))))
      else .error .overflow := by
  obtain ⟨d, read, -, -, scale, exact_⟩ := parseDecimal_format small (by decide : 8 < twoTo 32)
  have short : d.scale ≤ 10 := Nat.le_trans scale (by decide)
  have power : tenTo (10 - d.scale) = tenTo (8 - d.scale) * 100 := by
    have rest : 10 - d.scale = 8 - d.scale + 2 := by omega
    rw [rest, tenTo_succ, tenTo_succ, Nat.mul_assoc]
  have product : d.mantissa * price * tenTo (10 - d.scale) = value * price * 100 := by
    rw [power, ← exact_]
    ring
  have least := Nat.le_mul_of_pos_right (d.mantissa * price) (tenTo_pos (10 - d.scale))
  have overflows : Overflows d price ↔ ¬ value * price * 100 < bound := by
    rw [Overflows, product, Nat.not_lt]
    rw [product] at least
    constructor
    · exact fun exceeds => exceeds.elim (Nat.le_trans · least) And.right
    · exact fun exceeds => .inr ⟨short, exceeds⟩
  rw [estimate_of_parsed read (parseInteger_numeral cheap), units_of_le short, product]
  simp only [overflows, ite_not]

/-- A decimal of so many digits behind the point, and the number that it is. -/
def IsFixed (places : Nat) (number : ℚ) (cs : List Char) : Prop :=
  ∃ d : Decimal, d.scale = places ∧ d.value = number ∧ d.IsText cs

/-- The decimal of a number of units of 10^-18 with all its eighteen decimals. -/
theorem isText_fixed (n : Nat) : Decimal.IsText ⟨n, estimateDecimals⟩ (fixed n) := by
  have some_ : lastDigits estimateDecimals (n % tenTo estimateDecimals) ≠ [] :=
    Rfc3339.padded_ne_nil _ _
  have length : (lastDigits estimateDecimals (n % tenTo estimateDecimals)).length =
      estimateDecimals :=
    Rfc3339.length_padded (by decide) (Nat.mod_lt n (tenTo_pos estimateDecimals))
  have behind : Nat.ofDigitChars 10 (lastDigits estimateDecimals (n % tenTo estimateDecimals)) 0 =
      n % tenTo estimateDecimals :=
    Rfc3339.ofDigitChars_padded _ _
  have mantissa := Decimal.mantissa_ofDigits (numeral (n / tenTo estimateDecimals))
    (lastDigits estimateDecimals (n % tenTo estimateDecimals))
  rw [length, ofDigitChars_numeral, behind, Nat.div_add_mod] at mantissa
  refine ⟨numeral (n / tenTo estimateDecimals), _, isWhole_numeral _, isDigits_lastDigits _ _,
    (if_neg some_).symm, ?_⟩
  rw [Decimal.ofDigits, Decimal.mk.injEq]
  exact ⟨mantissa.symm, length.symm⟩

theorem isFixed_iff {n : Nat} {cs : List Char} :
    IsFixed estimateDecimals ((n : ℚ) / tenTo estimateDecimals) cs ↔ cs = fixed n := by
  constructor
  · rintro ⟨⟨mantissa, scale⟩, rfl, value, text⟩
    have same := div_tenTo_eq_iff.mp value
    obtain rfl := Nat.eq_of_mul_eq_mul_right (tenTo_pos _) same
    exact text.unique (isText_fixed mantissa)
  · rintro rfl
    exact ⟨_, rfl, rfl, isText_fixed n⟩

/-- The units are what amount and price come to, less a part of a unit. -/
theorem units_le_lt (d : Decimal) (price : Nat) :
    (units d price : ℚ) / tenTo 18 ≤ d.value * (price / tenTo 8) ∧
      d.value * (price / tenTo 8) < (units d price + 1) / tenTo 18 := by
  have positive (k : Nat) : (0 : ℚ) < tenTo k := Nat.cast_pos.mpr (tenTo_pos k)
  have power : (tenTo 18 : ℚ) = tenTo 10 * tenTo 8 := by
    rw [← Nat.cast_mul, ← tenTo_add]
  have exact_ : d.value * (price / tenTo 8) =
      ((d.mantissa * price * tenTo 10 : Nat) : ℚ) / (tenTo d.scale : Nat) / tenTo 18 := by
    have ten := (positive 10).ne'
    have eight := (positive 8).ne'
    have scale := (positive d.scale).ne'
    rw [Decimal.value, power]
    push_cast
    field_simp
  rw [exact_, div_le_div_iff_of_pos_right (positive 18), div_lt_div_iff_of_pos_right (positive 18)]
  constructor
  · exact Nat.cast_div_le
  · rw [units, ← Nat.floor_div_eq_div (K := ℚ)]
    exact Nat.lt_floor_add_one _

/-- Amount and price that are read have no estimate if the price is zero; else the estimate is told
with all its eighteen decimals unless it overflows, and it is what they come to, less a part of the
last decimal. An amount that is not read is a fault whatever the price is. -/
theorem estimate_exact (amount minPrice : String) :
    (∀ fault, parseDecimal amount = .error fault →
      estimate amount minPrice = .error (.invalidDecimal amount)) ∧
    (∀ d fault, parseDecimal amount = .ok d → parseInteger minPrice = .error fault →
      estimate amount minPrice = .error (.invalidInteger minPrice)) ∧
    ∀ d price, parseDecimal amount = .ok d → parseInteger minPrice = .ok price →
      d.scale + 8 < twoTo 32 →
        (price = 0 → estimate amount minPrice = .ok none) ∧
        (price ≠ 0 → (estimate amount minPrice = .error .overflow ↔ Overflows d price)) ∧
        (price ≠ 0 → ¬ Overflows d price →
          ∃ t, estimate amount minPrice = .ok (some t) ∧
            (∀ cs, IsFixed 18 ((units d price : ℚ) / tenTo 18) cs ↔ cs = t.toList) ∧
            (units d price : ℚ) / tenTo 18 ≤ d.value * (price / tenTo 8) ∧
            d.value * (price / tenTo 8) < (units d price + 1) / tenTo 18) ∧
        Strict.estimate amount minPrice = .ok (estimate amount minPrice) := by
  refine ⟨?_, ?_, ?_⟩
  · intro fault unread
    have told := (parseDecimal_eq_error_iff.mp unread).2
    rw [estimate, unread, told]
    rfl
  · intro d fault read unread
    have told := (parseInteger_eq_error_iff.mp unread).2
    rw [estimate, read, unread, told]
    rfl
  · intro d price read quoted short
    have computed := estimate_of_parsed read quoted
    refine ⟨?_, ?_, ?_, ?_⟩
    · intro zero
      rw [computed, if_pos zero]
    · intro some_
      rw [computed, if_neg some_]
      by_cases exceeds : Overflows d price
      · simp only [exceeds, if_true]
      · simp [exceeds]
    · intro some_ fits
      refine ⟨String.ofList (fixed (units d price)), ?_, ?_, units_le_lt d price⟩
      · rw [computed, if_neg some_, if_neg fits]
      · intro cs
        rw [String.toList_ofList]
        exact isFixed_iff
    · refine Strict.estimate_eq fun e read' => ?_
      rw [read] at read'
      rwa [← Except.ok.inj read']

/-- What comes to 1.9 units of the last decimal is cut to one. -/
theorem estimate_exact_of_part_of_unit :
    parseDecimal "0.00000000019" = .ok ⟨19, 11⟩ ∧ parseInteger "1" = .ok 1 ∧
      ¬ Overflows ⟨19, 11⟩ 1 ∧ units ⟨19, 11⟩ 1 = 1 ∧
      estimate "0.00000000019" "1" = .ok (some "0.000000000000000001") := by
  have read : parseDecimal "0.00000000019" = .ok ⟨19, 11⟩ := by decide
  have quoted : parseInteger "1" = .ok 1 := by decide
  have fits : ¬ Overflows ⟨19, 11⟩ 1 := by decide
  have one : units ⟨19, 11⟩ 1 = 1 := by decide
  obtain ⟨-, -, exact_⟩ := estimate_exact "0.00000000019" "1"
  obtain ⟨-, -, told, -⟩ := exact_ _ _ read quoted (by decide)
  obtain ⟨t, estimated, unique, -⟩ := told (by decide) fits
  refine ⟨read, quoted, fits, one, ?_⟩
  have text := (unique (fixed 1)).mp (by rw [one]; exact isFixed_iff.mpr rfl)
  rw [estimated, ← String.ofList_toList (s := t), ← text]
  rfl

end VaultTransfers.Amount
