import VaultTransfers.Amount
import VaultTransfers.Proofs.Codec.Date
import VaultTransfers.Proofs.Codec.Text

/-!
Numerals. Digits of a known number are determined by what they denote, and so
are digits without superfluous zeros in front. A decimal has therefore just one
text of a whole part and a fraction of its scale: what is written is told by the
mantissa and the scale alone.
-/

namespace VaultTransfers.Amount

def IsDigits (cs : List Char) : Prop :=
  ∀ c ∈ cs, c.isDigit = true

instance (cs : List Char) : Decidable (IsDigits cs) :=
  decidable_of_iff (cs.all Char.isDigit = true) List.all_eq_true

/-- Digits of a whole number, without superfluous zeros in front. -/
structure IsWhole (cs : List Char) : Prop where
  digits : IsDigits cs
  some_ : cs ≠ []
  lead : cs.head? = some '0' → cs = ['0']

/-- The text of a whole part and of a fraction, which has a point if it has digits. -/
def written (whole fraction : List Char) : List Char :=
  if fraction = [] then whole else whole ++ '.' :: fraction

/-- The decimal that the digits of a whole part and of a fraction denote. -/
def Decimal.ofDigits (whole fraction : List Char) : Decimal :=
  ⟨Nat.ofDigitChars 10 (whole ++ fraction) 0, fraction.length⟩

/-- A plain text of the decimal: no superfluous zeros in front, and as many digits behind the point
as its scale says. -/
def Decimal.IsText (d : Decimal) (cs : List Char) : Prop :=
  ∃ whole fraction, IsWhole whole ∧ IsDigits fraction ∧ cs = written whole fraction ∧
    d = .ofDigits whole fraction

theorem tenTo_add (m n : Nat) : tenTo (m + n) = tenTo m * tenTo n :=
  Nat.pow_add 10 m n

theorem tenTo_le {m n : Nat} (le : m ≤ n) : tenTo m ≤ tenTo n :=
  Nat.pow_le_pow_right (by decide) le

theorem IsDigits.nil : IsDigits [] := by
  simp [IsDigits]

theorem isDigits_cons {c : Char} {cs : List Char} :
    IsDigits (c :: cs) ↔ c.isDigit = true ∧ IsDigits cs :=
  List.forall_mem_cons

theorem isDigits_append {cs ds : List Char} : IsDigits (cs ++ ds) ↔ IsDigits cs ∧ IsDigits ds :=
  List.forall_mem_append

theorem mem_written {whole fraction : List Char} {c : Char} (member : c ∈ written whole fraction) :
    c ∈ whole ++ fraction ∨ c = '.' := by
  unfold written at member
  split at member
  · exact .inl (List.mem_append_left fraction member)
  · rw [List.mem_append, List.mem_cons] at member
    rw [List.mem_append]
    exact (or_left_comm.mp member).symm

theorem getLast?_written (whole : List Char) {fraction : List Char} (some_ : fraction ≠ []) :
    (written whole fraction).getLast? = fraction.getLast? := by
  rw [written, if_neg some_, List.append_cons, List.getLast?_append,
    List.getLast?_eq_some_getLast some_]
  rfl

theorem digitValue_lt {c : Char} (digit : c.isDigit = true) : Json.digitValue c < 10 := by
  simp only [Char.isDigit, Bool.and_eq_true, decide_eq_true_eq] at digit
  have high : c.toNat ≤ 57 := digit.2
  have zero : '0'.toNat = 48 := rfl
  rw [Json.digitValue, zero]
  omega

theorem eq_of_digitValue_eq {c d : Char} (first : c.isDigit = true) (second : d.isDigit = true)
    (same : Json.digitValue c = Json.digitValue d) : c = d := by
  simp only [Char.isDigit, Bool.and_eq_true, decide_eq_true_eq] at first second
  have low : 48 ≤ c.toNat := first.1
  have low' : 48 ≤ d.toNat := second.1
  have zero : '0'.toNat = 48 := rfl
  rw [Json.digitValue, Json.digitValue, zero] at same
  exact Char.toNat_inj.mp (by omega)

theorem ofDigitChars_cons_eq (c : Char) (cs : List Char) :
    Nat.ofDigitChars 10 (c :: cs) 0 =
      tenTo cs.length * Json.digitValue c + Nat.ofDigitChars 10 cs 0 := by
  rw [Nat.ofDigitChars_cons, Nat.ofDigitChars_eq_ofDigitChars_zero, Nat.mul_zero, Nat.zero_add]
  rfl

theorem ofDigitChars_append_eq (cs ds : List Char) :
    Nat.ofDigitChars 10 (cs ++ ds) 0 =
      tenTo ds.length * Nat.ofDigitChars 10 cs 0 + Nat.ofDigitChars 10 ds 0 := by
  rw [Nat.ofDigitChars_append, Nat.ofDigitChars_eq_ofDigitChars_zero]
  rfl

theorem ofDigitChars_lt {cs : List Char} (digits : IsDigits cs) :
    Nat.ofDigitChars 10 cs 0 < tenTo cs.length := by
  induction cs with
  | nil => exact tenTo_pos 0
  | cons c cs ih =>
      obtain ⟨digit, digits⟩ := isDigits_cons.mp digits
      have rest := ih digits
      have first : tenTo cs.length * Json.digitValue c ≤ tenTo cs.length * 9 :=
        Nat.mul_le_mul_left _ (Nat.le_of_lt_succ (digitValue_lt digit))
      rw [ofDigitChars_cons_eq, List.length_cons, tenTo_succ]
      omega

/-- A sum of a multiple and of less than it tells both. -/
theorem eq_of_mul_add_eq {n a b r s : Nat} (small : r < n) (small' : s < n)
    (same : n * a + r = n * b + s) : a = b ∧ r = s := by
  have quotient := congrArg (· / n) same
  have remainder := congrArg (· % n) same
  simp only [Nat.mul_add_div (Nat.zero_lt_of_lt small), Nat.div_eq_of_lt small,
    Nat.div_eq_of_lt small', Nat.add_zero] at quotient
  simp only [Nat.mul_add_mod, Nat.mod_eq_of_lt small, Nat.mod_eq_of_lt small'] at remainder
  exact ⟨quotient, remainder⟩

/-- As many digits denote different numbers if they differ. -/
theorem eq_of_ofDigitChars_eq {cs ds : List Char} (first : IsDigits cs) (second : IsDigits ds)
    (length : cs.length = ds.length)
    (same : Nat.ofDigitChars 10 cs 0 = Nat.ofDigitChars 10 ds 0) : cs = ds := by
  induction cs generalizing ds with
  | nil => exact (List.length_eq_zero_iff.mp length.symm).symm
  | cons c cs ih =>
      cases ds with
      | nil => cases length
      | cons d ds =>
          obtain ⟨digit, first⟩ := isDigits_cons.mp first
          obtain ⟨digit', second⟩ := isDigits_cons.mp second
          have length : cs.length = ds.length := Nat.succ.inj length
          rw [ofDigitChars_cons_eq, ofDigitChars_cons_eq, ← length] at same
          obtain ⟨head, tail⟩ := eq_of_mul_add_eq (ofDigitChars_lt first)
            (length ▸ ofDigitChars_lt second) same
          rw [eq_of_digitValue_eq digit digit' head, ih first second length tail]

namespace IsWhole

variable {cs ds : List Char}

/-- The first of several digits counts. -/
theorem le_ofDigitChars (whole : IsWhole cs) {n : Nat} (several : 1 ≤ n)
    (length : n < cs.length) : tenTo n ≤ Nat.ofDigitChars 10 cs 0 := by
  cases cs with
  | nil => cases length
  | cons c cs =>
      have counts : 1 ≤ Json.digitValue c := by
        refine Nat.one_le_iff_ne_zero.mpr fun zero => ?_
        have digit := (isDigits_cons.mp whole.digits).1
        obtain rfl := eq_of_digitValue_eq (d := '0') digit rfl zero
        obtain rfl := (List.cons.inj (whole.lead rfl)).2
        rw [List.length_singleton] at length
        omega
      have power : tenTo n ≤ tenTo cs.length := tenTo_le (Nat.le_of_lt_succ length)
      have first := Nat.le_mul_of_pos_right (tenTo cs.length) counts
      rw [ofDigitChars_cons_eq]
      omega

theorem length_le_of_ofDigitChars_eq (first : IsWhole cs) (second : IsWhole ds)
    (same : Nat.ofDigitChars 10 cs 0 = Nat.ofDigitChars 10 ds 0) : cs.length ≤ ds.length := by
  refine Nat.not_lt.mp fun longer => ?_
  have several : 1 ≤ ds.length := List.length_pos_iff.mpr second.some_
  have least := first.le_ofDigitChars several longer
  have most := ofDigitChars_lt second.digits
  omega

/-- A whole number has one text. -/
theorem eq_of_ofDigitChars_eq (first : IsWhole cs) (second : IsWhole ds)
    (same : Nat.ofDigitChars 10 cs 0 = Nat.ofDigitChars 10 ds 0) : cs = ds :=
  Amount.eq_of_ofDigitChars_eq first.digits second.digits
    (Nat.le_antisymm (first.length_le_of_ofDigitChars_eq second same)
      (second.length_le_of_ofDigitChars_eq first same.symm)) same

end IsWhole

theorem lastDigits_eq (width n : Nat) : lastDigits width n = Rfc3339.padded width n := rfl

theorem isDigits_lastDigits (width n : Nat) : IsDigits (lastDigits width n) :=
  fun _ member => Rfc3339.isDigit_of_mem_padded member

theorem ofDigitChars_numeral (n : Nat) : Nat.ofDigitChars 10 (numeral n) 0 = n :=
  Nat.ofDigitChars_toDigits (by decide) (by decide)

theorem isWhole_numeral (n : Nat) : IsWhole (numeral n) where
  digits _ member := Json.isDigit_of_mem_toDigits member
  some_ := Nat.toDigits_ne_nil
  lead zero := by
    rcases Nat.eq_zero_or_pos n with rfl | positive
    · rfl
    · obtain ⟨c, cs, digits, nonzero⟩ := Json.toDigits_cons_of_pos positive
      rw [numeral, digits, List.head?_cons, Option.some.injEq] at zero
      rw [zero] at nonzero
      exact absurd rfl nonzero

namespace Decimal

theorem mantissa_ofDigits (whole fraction : List Char) :
    (ofDigits whole fraction).mantissa =
      tenTo fraction.length * Nat.ofDigitChars 10 whole 0 + Nat.ofDigitChars 10 fraction 0 :=
  ofDigitChars_append_eq whole fraction

theorem mantissa_ofDigits_concat {whole front : List Char} {c : Char} (digit : c.isDigit = true) :
    (ofDigits whole (front ++ [c])).mantissa % 10 = Json.digitValue c := by
  have last : Nat.ofDigitChars 10 [c] 0 = Json.digitValue c := by
    rw [ofDigitChars_cons_eq, Nat.ofDigitChars_nil, List.length_nil, tenTo_zero]
    omega
  rw [ofDigits, ← List.append_assoc, ofDigitChars_append_eq, last]
  change (10 * _ + _) % 10 = _
  rw [Nat.mul_add_mod, Nat.mod_eq_of_lt (digitValue_lt digit)]

/-- A decimal has one plain text. -/
theorem IsText.unique {d : Decimal} {cs ds : List Char} (first : d.IsText cs)
    (second : d.IsText ds) : cs = ds := by
  obtain ⟨whole, fraction, isWhole, digits, rfl, rfl⟩ := first
  obtain ⟨whole', fraction', isWhole', digits', rfl, same⟩ := second
  have scale : fraction.length = fraction'.length := congrArg Decimal.scale same
  have mantissa := congrArg Decimal.mantissa same
  rw [mantissa_ofDigits, mantissa_ofDigits, ← scale] at mantissa
  obtain ⟨front, behind⟩ := eq_of_mul_add_eq (ofDigitChars_lt digits)
    (scale ▸ ofDigitChars_lt digits') mantissa
  rw [isWhole.eq_of_ofDigitChars_eq isWhole' front, eq_of_ofDigitChars_eq digits digits' scale behind]

end Decimal

end VaultTransfers.Amount
