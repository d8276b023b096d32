import Mathlib.Algebra.Order.Field.Rat
import Mathlib.Tactic.Ring
import VaultTransfers.Proofs.Amount.Grammar
import VaultTransfers.Proofs.Amount.Words
import VaultTransfers.Store.OrderTable

/-!
The text of an amount. It is a plain decimal of the amount's exact value in whole
tokens, the shortest one, and it is read back as that. Amounts of tokens with any
decimals are therefore the same number if they are the same text, and finding
open withdrawals by the text of their amount finds them by the number.
-/

namespace VaultTransfers

namespace Amount

namespace Decimal

/-- The number that a decimal is. -/
def value (d : Decimal) : ℚ :=
  d.mantissa / tenTo d.scale

/-- No digit of its fraction can be left out. -/
def IsReduced (d : Decimal) : Prop :=
  d.scale = 0 ∨ d.mantissa % 10 ≠ 0

end Decimal

theorem div_tenTo_eq_iff {m n s t : Nat} :
    (m : ℚ) / tenTo s = n / tenTo t ↔ m * tenTo t = n * tenTo s := by
  have positive (k : Nat) : (tenTo k : ℚ) ≠ 0 := Nat.cast_ne_zero.mpr (tenTo_pos k).ne'
  rw [div_eq_div_iff (positive s) (positive t)]
  exact_mod_cast Iff.rfl

namespace Decimal

variable {d e : Decimal}

/-- A reduced decimal has no more digits behind its point than another of its value. -/
theorem IsReduced.scale_le (reduced : d.IsReduced)
    (same : d.mantissa * tenTo e.scale = e.mantissa * tenTo d.scale) : d.scale ≤ e.scale := by
  refine Nat.not_lt.mp fun longer => ?_
  obtain ⟨k, scale⟩ := Nat.exists_eq_add_of_lt longer
  have power : tenTo d.scale = tenTo e.scale * (tenTo k * 10) := by
    rw [scale, Nat.add_assoc, tenTo_add, tenTo_succ]
  have mantissa : d.mantissa = e.mantissa * tenTo k * 10 := by
    refine Nat.eq_of_mul_eq_mul_right (tenTo_pos e.scale) ?_
    rw [same, power]
    ring
  rcases reduced with whole | odd
  · omega
  · exact odd (by rw [mantissa, Nat.mul_mod_left])

/-- A number is one reduced decimal. -/
theorem IsReduced.eq_of_value_eq (first : d.IsReduced) (second : e.IsReduced)
    (same : d.value = e.value) : d = e := by
  have cross := div_tenTo_eq_iff.mp same
  have scale := Nat.le_antisymm (first.scale_le cross) (second.scale_le cross.symm)
  rw [scale] at cross
  have mantissa := Nat.eq_of_mul_eq_mul_right (tenTo_pos e.scale) cross
  cases d
  cases e
  simp only at scale mantissa
  rw [scale, mantissa]

/-- A text that does not end in a zero behind its point is of a reduced decimal. -/
theorem IsText.isReduced {cs : List Char} (text : d.IsText cs)
    (end_ : d.scale = 0 ∨ cs.getLast? ≠ some '0') : d.IsReduced := by
  refine or_iff_not_imp_left.mpr fun pointed => ?_
  have last := end_.resolve_left pointed
  obtain ⟨whole, fraction, isWhole, behind, rfl, rfl⟩ := text
  rcases List.eq_nil_or_concat fraction with rfl | ⟨front, c, rfl⟩
  · exact absurd rfl pointed
  · rw [List.concat_eq_append] at behind last ⊢
    have digit : c.isDigit = true := (isDigits_cons.mp (isDigits_append.mp behind).2).1
    rw [getLast?_written whole (by simp), List.getLast?_concat] at last
    intro zero
    rw [mantissa_ofDigits_concat digit] at zero
    have isZero : c = '0' := eq_of_digitValue_eq digit rfl zero
    exact last (congrArg some isZero)

end Decimal

theorem dropTrailingZeros_append (cs : List Char) :
    ∃ k, cs = dropTrailingZeros cs ++ List.replicate k '0' := by
  have zeros : cs.reverse.takeWhile (· = '0') =
      List.replicate (cs.reverse.takeWhile (· = '0')).length '0' := by
    refine List.eq_replicate_of_mem fun c member => ?_
    simpa using List.mem_takeWhile_imp member
  refine ⟨(cs.reverse.takeWhile (· = '0')).length, ?_⟩
  calc cs = (cs.reverse.takeWhile (· = '0') ++ cs.reverse.dropWhile (· = '0')).reverse := by
        rw [List.takeWhile_append_dropWhile, List.reverse_reverse]
    _ = dropTrailingZeros cs ++ (cs.reverse.takeWhile (· = '0')).reverse := List.reverse_append
    _ = dropTrailingZeros cs ++ List.replicate _ '0' := by
        rw [zeros, List.reverse_replicate, List.length_replicate]

theorem getLast?_dropTrailingZeros (cs : List Char) :
    (dropTrailingZeros cs).getLast? ≠ some '0' := by
  intro zero
  rw [dropTrailingZeros, List.getLast?_reverse] at zero
  have stop := List.head?_dropWhile_not (· = '0') cs.reverse
  rw [zero] at stop
  simp at stop

/-- The digits of a fraction without its trailing zeros, and how many zeros there were. -/
theorem fraction_spec {fraction decimals : Nat} (positive : 0 < fraction)
    (fits : fraction < tenTo decimals) :
    ∃ k, (dropTrailingZeros (lastDigits decimals fraction)).length + k = decimals ∧
      Nat.ofDigitChars 10 (dropTrailingZeros (lastDigits decimals fraction)) 0 * tenTo k = fraction ∧
      IsDigits (dropTrailingZeros (lastDigits decimals fraction)) := by
  obtain ⟨k, split⟩ := dropTrailingZeros_append (lastDigits decimals fraction)
  have wide : 0 < decimals := by
    rcases Nat.eq_zero_or_pos decimals with rfl | wide
    · rw [tenTo_zero] at fits
      omega
    · exact wide
  have length := congrArg List.length split
  have number := congrArg (Nat.ofDigitChars 10 · 0) split
  simp only [lastDigits_eq, Rfc3339.length_padded wide fits, List.length_append,
    List.length_replicate] at length
  simp only [lastDigits_eq, Rfc3339.ofDigitChars_padded, Nat.ofDigitChars_append,
    Nat.ofDigitChars_replicate_zero] at number
  refine ⟨k, length.symm, ?_, ?_⟩
  · rw [Nat.mul_comm]
    exact number.symm
  · intro c member
    have among : c ∈ lastDigits decimals fraction := by
      rw [split]
      exact List.mem_append_left _ member
    exact Rfc3339.isDigit_of_mem_padded among

/-- The text of an amount is that of a decimal of its value, with no zero at its end and no more
digits behind its point than it has decimals. -/
theorem format_isText (value decimals : Nat) :
    ∃ d : Decimal, d.IsText (format value decimals) ∧
      (d.scale = 0 ∨ (format value decimals).getLast? ≠ some '0') ∧ d.scale ≤ decimals ∧
      d.mantissa * tenTo (decimals - d.scale) = value := by
  have isWhole := isWhole_numeral (value / tenTo decimals)
  have division := Nat.div_add_mod value (tenTo decimals)
  by_cases fraction : value % tenTo decimals = 0
  · rw [fraction, Nat.add_zero, Nat.mul_comm] at division
    have text : format value decimals = written (numeral (value / tenTo decimals)) [] := by
      rw [format, if_pos fraction, written, if_pos rfl]
    refine ⟨.ofDigits _ [], ⟨_, [], isWhole, .nil, text, rfl⟩, .inl rfl, Nat.zero_le _, ?_⟩
    rw [Decimal.ofDigits, List.append_nil, ofDigitChars_numeral]
    exact division
  · obtain ⟨k, length, number, digits⟩ := fraction_spec (Nat.pos_of_ne_zero fraction)
      (Nat.mod_lt value (tenTo_pos decimals))
    have last := getLast?_dropTrailingZeros (lastDigits decimals (value % tenTo decimals))
    have text : format value decimals = numeral (value / tenTo decimals) ++
        '.' :: dropTrailingZeros (lastDigits decimals (value % tenTo decimals)) := by
      rw [format, if_neg fraction]
    generalize dropTrailingZeros (lastDigits decimals (value % tenTo decimals)) = kept at *
    have some_ : kept ≠ [] := by
      rintro rfl
      rw [Nat.ofDigitChars_nil, Nat.zero_mul] at number
      exact fraction number.symm
    have text : format value decimals = written (numeral (value / tenTo decimals)) kept := by
      rw [text, written, if_neg some_]
    rw [text, getLast?_written _ some_]
    refine ⟨.ofDigits _ kept, ⟨_, kept, isWhole, digits, rfl, rfl⟩, .inr last, ?_, ?_⟩
    · exact Nat.le_of_add_right_le (Nat.le_of_eq length)
    · have rest : decimals - kept.length = k := by omega
      have power : tenTo decimals = tenTo kept.length * tenTo k := by
        rw [← length, tenTo_add]
      rw [Decimal.mantissa_ofDigits, ofDigitChars_numeral]
      change _ * tenTo (decimals - kept.length) = value
      rw [rest, Nat.add_mul, number, Nat.mul_right_comm, ← power, division]

/-- The text of an amount is read as a reduced decimal of its value. -/
theorem parseDecimal_format {value decimals : Nat} (small : value < bound)
    (few : decimals < twoTo 32) :
    ∃ d, parseDecimal (String.ofList (format value decimals)) = .ok d ∧
      d.IsText (format value decimals) ∧ (d.scale = 0 ∨ (format value decimals).getLast? ≠ some '0') ∧
      d.scale ≤ decimals ∧ d.mantissa * tenTo (decimals - d.scale) = value := by
  obtain ⟨d, text, last, scale, exact_⟩ := format_isText value decimals
  have cut := Nat.le_mul_of_pos_right d.mantissa (tenTo_pos (decimals - d.scale))
  exact ⟨d, text.parseDecimal_eq (by omega) (by omega), text, last, scale, exact_⟩

/-- The number that a text is read as. -/
def numberOf? (text : String) : Option ℚ :=
  (parseDecimal text).toOption.map Decimal.value

/-- The text of an amount is read as a decimal of its exact value, which it is the shortest text
of. -/
theorem shortest_format {value decimals : Nat} (small : value < bound) (few : decimals ≤ 255) :
    ∃ d : Decimal, d.IsText (format value decimals) ∧ d.scale ≤ decimals ∧
      (d.scale = 0 ∨ (format value decimals).getLast? ≠ some '0') ∧
      d.value = value / tenTo decimals ∧
      parseDecimal (String.ofList (format value decimals)) = .ok d ∧
      d.mantissa * tenTo decimals = value * tenTo d.scale := by
  have short : decimals < twoTo 32 := Nat.lt_of_le_of_lt few (by decide)
  obtain ⟨d, read, text, last, scale, exact_⟩ := parseDecimal_format small short
  have cross : d.mantissa * tenTo decimals = value * tenTo d.scale := by
    have power : tenTo decimals = tenTo (decimals - d.scale) * tenTo d.scale := by
      rw [← tenTo_add, Nat.sub_add_cancel scale]
    rw [power, ← Nat.mul_assoc, exact_]
  exact ⟨d, text, scale, last, div_tenTo_eq_iff.mpr cross, read, cross⟩

theorem format_eq_iff {v w c d : Nat} (first : v < bound) (first' : c ≤ 255) (second : w < bound)
    (second' : d ≤ 255) : format v c = format w d ↔ v * tenTo d = w * tenTo c := by
  obtain ⟨a, text, -, last, value, read, -⟩ := shortest_format first first'
  obtain ⟨b, text', -, last', value', read', -⟩ := shortest_format second second'
  rw [← div_tenTo_eq_iff, ← value, ← value']
  constructor
  · intro same
    rw [same, read'] at read
    rw [Except.ok.inj read]
  · intro same
    obtain rfl := (text.isReduced last).eq_of_value_eq (text'.isReduced last') same
    exact text.unique text'

theorem numberOf?_format {value decimals : Nat} (small : value < bound) (few : decimals ≤ 255) :
    numberOf? (String.ofList (format value decimals)) = some ((value : ℚ) / tenTo decimals) := by
  obtain ⟨d, -, -, -, same, read, -⟩ := shortest_format small few
  rw [numberOf?, read, ← same]
  rfl

/-- The text of an amount is computed in words; it is a plain decimal of the amount's exact value, the
shortest, and is read back as it. Amounts are the same text just if they are the same number, and a
wallet's open withdrawals of an amount are those whose amount is the number. -/
theorem format_canonical :
    (∀ value decimals, value < bound → decimals ≤ 255 →
      Strict.format value decimals = .ok (format value decimals) ∧
      ∃ d : Decimal, d.IsText (format value decimals) ∧ d.scale ≤ decimals ∧
        (d.scale = 0 ∨ (format value decimals).getLast? ≠ some '0') ∧
        d.value = value / tenTo decimals ∧
        parseDecimal (String.ofList (format value decimals)) = .ok d ∧
        d.mantissa * tenTo decimals = value * tenTo d.scale) ∧
    (∀ v c w d, v < bound → c ≤ 255 → w < bound → d ≤ 255 →
      (String.ofList (format v c) = String.ofList (format w d) ↔ v * tenTo d = w * tenTo c)) ∧
    ∀ (table : OrderTable) wallet value decimals, value < bound → decimals ≤ 255 →
      (∀ o ∈ table.orders, ∃ v d, v < bound ∧ d ≤ 255 ∧ o.amount = String.ofList (format v d)) →
      table.openOfAmount wallet (String.ofList (format value decimals)) =
        Order.latest? (table.orders.filter fun o =>
          o.isOpenOf wallet && numberOf? o.amount = some ((value : ℚ) / tenTo decimals)) := by
  refine ⟨fun _ _ small few => ⟨Strict.format_eq small, shortest_format small few⟩, ?_, ?_⟩
  · intro v c w d first first' second second'
    rw [String.ofList_inj]
    exact format_eq_iff first first' second second'
  · intro table wallet value decimals small few amounts
    refine congrArg Order.latest? (List.filter_congr fun o member => ?_)
    obtain ⟨v, d, small', few', amount⟩ := amounts o member
    have same : o.amount = String.ofList (format value decimals) ↔
        numberOf? o.amount = some ((value : ℚ) / tenTo decimals) := by
      rw [amount, numberOf?_format small' few', Option.some.injEq, div_tenTo_eq_iff,
        String.ofList_inj]
      exact format_eq_iff small' few' small few
    simp only [same]

/-- The smallest unit of a token whose unit is beyond 256 bits, and one amount of two tokens. -/
theorem format_canonical_of_many_decimals :
    Strict.format 1 255 = .ok (format 1 255) ∧
      (∃ d : Decimal, d.IsText (format 1 255) ∧ d.value = 1 / tenTo 255) ∧
      String.ofList (format 150000000 8) = String.ofList (format 15 1) := by
  obtain ⟨shortest, same, -⟩ := format_canonical
  obtain ⟨words, d, text, -, -, value, -⟩ := shortest 1 255 (by decide) (by decide)
  refine ⟨words, ⟨d, text, by simpa using value⟩, ?_⟩
  exact (same 150000000 8 15 1 (by decide) (by decide) (by decide) (by decide)).mpr (by decide)

end Amount

end VaultTransfers
