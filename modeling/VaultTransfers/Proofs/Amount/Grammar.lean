import Mathlib.Data.List.TakeWhile
import VaultTransfers.Node.Value
import VaultTransfers.Proofs.Amount.Numeral

/-!
Which texts are amounts. Between blanks stands a decimal, which is digits with at
most one point among them, or an integer, which is digits alone; the number has
256 bits. What tells them apart looks at the characters only. Any reader of words
may then read the digits, whatever else it would take for a word: no mark of a
radix and no separator ever gets to it.
-/

namespace VaultTransfers

namespace Text

/-- A text without the blanks around it. -/
structure IsTrimmed (cs t : List Char) : Prop where
  around : ∃ front back, cs = front ++ t ++ back ∧ ∀ c ∈ front ++ back, isBlank c = true
  first : ∀ c, t.head? = some c → isBlank c = false
  last : ∀ c, t.getLast? = some c → isBlank c = false

theorem isTrimmed_trim (cs : List Char) : IsTrimmed cs (trim cs) := by
  have front := List.takeWhile_append_dropWhile (p := isBlank) (l := cs)
  have back := List.takeWhile_append_dropWhile (p := isBlank) (l := (trimStart cs).reverse)
  have whole : trimStart cs = trim cs ++ ((trimStart cs).reverse.takeWhile isBlank).reverse := by
    rw [trim, trimEnd, ← List.reverse_append, back, List.reverse_reverse]
  refine ⟨⟨cs.takeWhile isBlank, ((trimStart cs).reverse.takeWhile isBlank).reverse, ?_, ?_⟩, ?_, ?_⟩
  · rw [List.append_assoc, ← whole, trimStart, front]
  · intro c member
    rcases List.mem_append.mp member with before | behind
    · exact List.mem_takeWhile_imp before
    · exact List.mem_takeWhile_imp (List.mem_reverse.mp behind)
  · intro c head
    have kept : (trimStart cs).head? = some c := by
      rw [whole, List.head?_append, head]
      rfl
    have stop := List.head?_dropWhile_not isBlank cs
    rw [trimStart] at kept
    rwa [kept] at stop
  · intro c last
    rw [trim, trimEnd, List.getLast?_reverse] at last
    have stop := List.head?_dropWhile_not isBlank (trimStart cs).reverse
    rwa [last] at stop

end Text

namespace Amount

/-- Digits with at most one point among them, and at least one digit. -/
structure IsPointed (t : List Char) : Prop where
  plain : ∀ c ∈ t, c.isDigit = true ∨ c = '.'
  onePoint : t.count '.' ≤ 1
  someDigit : ∃ c ∈ t, c.isDigit = true

instance (t : List Char) : Decidable (IsPointed t) :=
  decidable_of_iff
    (t.all (fun c => c.isDigit || c = '.') = true ∧ t.count '.' ≤ 1 ∧ t.any Char.isDigit = true) <| by
    simp only [List.all_eq_true, List.any_eq_true, Bool.or_eq_true, decide_eq_true_eq]
    exact ⟨fun ⟨plain, onePoint, someDigit⟩ => ⟨plain, onePoint, someDigit⟩,
      fun ⟨plain, onePoint, someDigit⟩ => ⟨plain, onePoint, someDigit⟩⟩

def behindPoint (t : List Char) : List Char :=
  (t.dropWhile (· ≠ '.')).drop 1

/-- The digits, read without the point, and how many of them are behind it. -/
structure Denotes (t : List Char) (d : Decimal) : Prop where
  pointed : IsPointed t
  mantissa : d.mantissa = Nat.ofDigitChars 10 (t.filter (· ≠ '.')) 0
  scale : d.scale = (behindPoint t).length
  small : d.mantissa < bound
  short : d.scale < twoTo 32

structure DenotesInteger (t : List Char) (n : Nat) : Prop where
  some_ : t ≠ []
  digits : IsDigits t
  value : n = Nat.ofDigitChars 10 t 0
  small : n < bound

theorem ne_point_of_isDigit {c : Char} (digit : c.isDigit = true) : c ≠ '.' := by
  rintro rfl
  cases digit

theorem filter_of_isDigits {cs : List Char} (digits : IsDigits cs) : cs.filter (· ≠ '.') = cs :=
  List.filter_eq_self.mpr fun c member => decide_eq_true (ne_point_of_isDigit (digits c member))

/-- A text either has no point or is cut in two by its first one. -/
theorem splitPoint_cases (t : List Char) :
    ('.' ∉ t ∧ splitPoint t = (t, [])) ∨
      ∃ whole fraction, '.' ∉ whole ∧ t = whole ++ '.' :: fraction ∧
        splitPoint t = (whole, fraction) := by
  have front : '.' ∉ t.takeWhile (· ≠ '.') := fun member => by
    simpa using List.mem_takeWhile_imp member
  have whole := List.takeWhile_append_dropWhile (p := (· ≠ '.')) (l := t)
  cases rest : t.dropWhile (· ≠ '.') with
  | nil =>
      rw [rest, List.append_nil] at whole
      refine .inl ⟨whole ▸ front, ?_⟩
      rw [splitPoint, rest, whole]
      rfl
  | cons c cs =>
      have point : c = '.' := by
        have stop := List.head?_dropWhile_not (· ≠ '.') t
        rw [rest, List.head?_cons] at stop
        simpa using stop
      rw [rest, point] at whole
      refine .inr ⟨_, cs, front, whole.symm, ?_⟩
      rw [splitPoint, rest]
      rfl

/-- A pointed text is one whose parts are digits, and not both empty. -/
theorem isPointed_iff {t whole fraction : List Char} (split : splitPoint t = (whole, fraction)) :
    IsPointed t ↔ whole ++ fraction ≠ [] ∧ IsDigits (whole ++ fraction) := by
  rcases splitPoint_cases t with ⟨noPoint, split'⟩ | ⟨whole', fraction', front, rfl, split'⟩
  · obtain ⟨rfl, rfl⟩ := Prod.mk.inj (split.symm.trans split')
    rw [List.append_nil]
    constructor
    · rintro ⟨plain, -, c, member, digit⟩
      refine ⟨List.ne_nil_of_mem member, fun d among => (plain d among).resolve_right ?_⟩
      rintro rfl
      exact noPoint among
    · rintro ⟨some_, digits⟩
      obtain ⟨c, member⟩ := List.exists_mem_of_ne_nil _ some_
      exact ⟨fun d among => .inl (digits d among),
        by rw [List.count_eq_zero_of_not_mem noPoint]; exact Nat.zero_le 1,
        c, member, digits c member⟩
  · obtain ⟨rfl, rfl⟩ := Prod.mk.inj (split.symm.trans split')
    have points : (whole ++ '.' :: fraction).count '.' = fraction.count '.' + 1 := by
      rw [List.count_append, List.count_eq_zero_of_not_mem front, List.count_cons_self, Nat.zero_add]
    have parts {c : Char} : c ∈ whole ++ '.' :: fraction ↔ c = '.' ∨ c ∈ whole ++ fraction := by
      simp only [List.mem_append, List.mem_cons]
      exact or_left_comm
    constructor
    · rintro ⟨plain, onePoint, c, member, digit⟩
      have behind : '.' ∉ fraction := List.count_eq_zero.mp (by omega)
      refine ⟨List.ne_nil_of_mem ((parts.mp member).resolve_left (ne_point_of_isDigit digit)), ?_⟩
      intro d among
      refine (plain d (parts.mpr (.inr among))).resolve_right ?_
      rintro rfl
      exact (List.mem_append.mp among).elim front behind
    · rintro ⟨some_, digits⟩
      obtain ⟨c, member⟩ := List.exists_mem_of_ne_nil _ some_
      have behind : '.' ∉ fraction := fun among =>
        ne_point_of_isDigit (digits '.' (List.mem_append_right whole among)) rfl
      refine ⟨fun d among => ?_, ?_, c, parts.mpr (.inr member), digits c member⟩
      · exact (parts.mp among).symm.imp_left (digits d)
      · rw [points, List.count_eq_zero_of_not_mem behind]

theorem filter_of_split {t whole fraction : List Char} (split : splitPoint t = (whole, fraction))
    (digits : IsDigits (whole ++ fraction)) : t.filter (· ≠ '.') = whole ++ fraction := by
  rcases splitPoint_cases t with ⟨-, split'⟩ | ⟨whole', fraction', -, rfl, split'⟩
  · obtain ⟨rfl, rfl⟩ := Prod.mk.inj (split.symm.trans split')
    rw [List.append_nil] at digits ⊢
    exact filter_of_isDigits digits
  · obtain ⟨rfl, rfl⟩ := Prod.mk.inj (split.symm.trans split')
    obtain ⟨front, behind⟩ := isDigits_append.mp digits
    rw [List.filter_append, List.filter_cons_of_neg (by simp), filter_of_isDigits front,
      filter_of_isDigits behind]

theorem splitPoint_of_digits {whole : List Char} (digits : IsDigits whole) :
    splitPoint whole = (whole, []) ∧
      ∀ fraction, splitPoint (whole ++ '.' :: fraction) = (whole, fraction) := by
  have plain : ∀ c ∈ whole, decide (c ≠ '.') = true :=
    fun c member => decide_eq_true (ne_point_of_isDigit (digits c member))
  constructor
  · rw [splitPoint, List.takeWhile_eq_self_iff.mpr plain, List.dropWhile_eq_nil_iff.mpr plain]
    rfl
  · intro fraction
    rw [splitPoint, List.takeWhile_append_of_pos plain, List.dropWhile_append_of_pos plain]
    simp

theorem all_isDigit_iff {cs : List Char} : cs.all Char.isDigit = true ↔ IsDigits cs :=
  List.all_eq_true

theorem digits_of_not_spoiled {digits : List Char}
    (plain : ¬ (digits = [] ∨ (!digits.all Char.isDigit) = true)) :
    digits ≠ [] ∧ IsDigits digits := by
  obtain ⟨some_, digits⟩ := not_or.mp plain
  rw [Bool.not_eq_true', Bool.not_eq_false] at digits
  exact ⟨some_, all_isDigit_iff.mp digits⟩

/-- A decimal is its digits without the point, scaled by how many of them are behind it. -/
theorem decimal?_of_digits {whole fraction : List Char}
    (digits : IsDigits (whole ++ fraction)) (some_ : whole ++ fraction ≠ [])
    (small : Nat.ofDigitChars 10 (whole ++ fraction) 0 < bound) (short : fraction.length < twoTo 32)
    {cs : List Char} (split : splitPoint cs = (whole, fraction)) :
    decimal? cs = some ⟨Nat.ofDigitChars 10 (whole ++ fraction) 0, fraction.length⟩ := by
  have all := all_isDigit_iff.mpr digits
  simp only [decimal?, split, some_, all, small, short, Bool.not_true, Bool.false_eq_true, or_self,
    and_self, if_false, if_true]

theorem decimal?_eq_some_iff {t : List Char} {d : Decimal} :
    decimal? t = some d ↔ Denotes t d := by
  obtain ⟨⟨whole, fraction⟩, split⟩ : ∃ parts, splitPoint t = parts := ⟨_, rfl⟩
  have behind : behindPoint t = fraction := congrArg Prod.snd split
  constructor
  · intro read
    simp only [decimal?, split] at read
    split_ifs at read with spoiled fits
    obtain ⟨some_, digits⟩ := digits_of_not_spoiled spoiled
    cases read
    exact ⟨(isPointed_iff split).mpr ⟨some_, digits⟩, by rw [filter_of_split split digits],
      by rw [behind], fits.1, fits.2⟩
  · rintro ⟨pointed, mantissa, scale, small, short⟩
    obtain ⟨some_, digits⟩ := (isPointed_iff split).mp pointed
    rw [filter_of_split split digits] at mantissa
    rw [behind] at scale
    rw [decimal?_of_digits digits some_ (mantissa ▸ small) (scale ▸ short) split, ← mantissa, ← scale]

theorem integer?_eq_some_iff {t : List Char} {n : Nat} :
    integer? t = some n ↔ DenotesInteger t n := by
  constructor
  · intro read
    simp only [integer?] at read
    split_ifs at read with spoiled fits
    obtain ⟨some_, digits⟩ := digits_of_not_spoiled spoiled
    cases read
    exact ⟨some_, digits, rfl, fits⟩
  · rintro ⟨some_, digits, rfl, small⟩
    simp only [integer?, some_, all_isDigit_iff.mpr digits, small, Bool.not_true, Bool.false_eq_true,
      or_self, if_false, if_true]

/-- Digits are read as the number that they denote, if it has 256 bits. -/
def ReadsDigits (read : List Char → Option Nat) : Prop :=
  ∀ ds, ds ≠ [] → IsDigits ds →
    read ds = if Nat.ofDigitChars 10 ds 0 < bound then some (Nat.ofDigitChars 10 ds 0) else none

/-- Reads a decimal between blanks, its digits with the reader. -/
def parseDecimalBy (read : List Char → Option Nat) (text : String) : Except Fault Decimal :=
  let (whole, fraction) := splitPoint (Text.trim text.toList)
  let digits := whole ++ fraction
  if digits = [] ∨ !digits.all Char.isDigit then .error (.invalidDecimal text)
  else match read digits with
    | none => .error (.invalidDecimal text)
    | some mantissa =>
      if fraction.length < twoTo 32 then .ok ⟨mantissa, fraction.length⟩
      else .error (.invalidDecimal text)

def parseIntegerBy (read : List Char → Option Nat) (text : String) : Except Fault Nat :=
  let digits := Text.trim text.toList
  if digits = [] ∨ !digits.all Char.isDigit then .error (.invalidInteger text)
  else match read digits with
    | none => .error (.invalidInteger text)
    | some n => .ok n

section

variable {read : List Char → Option Nat}

theorem parseDecimalBy_eq (reads : ReadsDigits read) (text : String) :
    parseDecimalBy read text = parseDecimal text := by
  simp only [parseDecimalBy, parseDecimal, decimal?]
  generalize splitPoint (Text.trim text.toList) = parts
  by_cases spoiled : parts.1 ++ parts.2 = [] ∨ (!(parts.1 ++ parts.2).all Char.isDigit) = true
  · simp only [spoiled, if_true]
  · obtain ⟨some_, digits⟩ := digits_of_not_spoiled spoiled
    simp only [spoiled, if_false, reads _ some_ digits]
    by_cases small : Nat.ofDigitChars 10 (parts.1 ++ parts.2) 0 < bound
    · by_cases short : parts.2.length < twoTo 32
      · simp only [small, short, if_true, and_self]
      · simp only [small, short, if_true, if_false, and_false]
    · simp only [small, if_false, false_and]

theorem parseIntegerBy_eq (reads : ReadsDigits read) (text : String) :
    parseIntegerBy read text = parseInteger text := by
  simp only [parseIntegerBy, parseInteger, integer?]
  by_cases spoiled : Text.trim text.toList = [] ∨
      (!(Text.trim text.toList).all Char.isDigit) = true
  · simp only [spoiled, if_true]
  · obtain ⟨some_, digits⟩ := digits_of_not_spoiled spoiled
    simp only [spoiled, if_false, reads _ some_ digits]
    by_cases small : Nat.ofDigitChars 10 (Text.trim text.toList) 0 < bound
    · simp only [small, if_true]
    · simp only [small, if_false]

end

theorem parseDecimal_eq_ok_iff {x : String} {d : Decimal} :
    parseDecimal x = .ok d ↔ Denotes (Text.trim x.toList) d := by
  rw [← decimal?_eq_some_iff, parseDecimal]
  cases decimal? (Text.trim x.toList) with
  | none => simp
  | some d' => simp

theorem parseInteger_eq_ok_iff {x : String} {n : Nat} :
    parseInteger x = .ok n ↔ DenotesInteger (Text.trim x.toList) n := by
  rw [← integer?_eq_some_iff, parseInteger]
  cases integer? (Text.trim x.toList) with
  | none => simp
  | some n' => simp

theorem parseDecimal_eq_error_iff {x : String} {fault : Fault} :
    parseDecimal x = .error fault ↔
      (¬ ∃ d, Denotes (Text.trim x.toList) d) ∧ fault = .invalidDecimal x := by
  simp only [← decimal?_eq_some_iff, parseDecimal]
  cases decimal? (Text.trim x.toList) with
  | none => simp [eq_comm]
  | some d => simp

theorem parseInteger_eq_error_iff {x : String} {fault : Fault} :
    parseInteger x = .error fault ↔
      (¬ ∃ n, DenotesInteger (Text.trim x.toList) n) ∧ fault = .invalidInteger x := by
  simp only [← integer?_eq_some_iff, parseInteger]
  cases integer? (Text.trim x.toList) with
  | none => simp [eq_comm]
  | some n => simp

theorem parseInteger_numeral {n : Nat} (small : n < bound) :
    parseInteger (String.ofList (numeral n)) = .ok n := by
  have digits := (isWhole_numeral n).digits
  have plain : ∀ c ∈ numeral n, Text.isBlank c = false :=
    fun c member => Rfc3339.isBlank_of_isDigit (digits c member)
  rw [parseInteger_eq_ok_iff, String.toList_ofList, Text.trim_eq_self plain]
  exact ⟨Nat.toDigits_ne_nil, digits, (ofDigitChars_numeral n).symm, small⟩

/-- The plain text of a decimal is read as the decimal. -/
theorem Decimal.IsText.parseDecimal_eq {d : Decimal} {cs : List Char} (text : d.IsText cs)
    (small : d.mantissa < bound) (short : d.scale < twoTo 32) :
    parseDecimal (String.ofList cs) = .ok d := by
  obtain ⟨whole, fraction, isWhole, behind, rfl, rfl⟩ := text
  have digits := isDigits_append.mpr ⟨isWhole.digits, behind⟩
  have plain : ∀ c ∈ written whole fraction, Text.isBlank c = false := by
    intro c member
    rcases mem_written member with digit | rfl
    · exact Rfc3339.isBlank_of_isDigit (digits c digit)
    · rfl
  have split : splitPoint (written whole fraction) = (whole, fraction) := by
    rw [written]
    split_ifs with empty
    · rw [empty]
      exact (splitPoint_of_digits isWhole.digits).1
    · exact (splitPoint_of_digits isWhole.digits).2 fraction
  have some_ : whole ++ fraction ≠ [] := List.append_ne_nil_of_left_ne_nil isWhole.some_ fraction
  rw [parseDecimal, String.toList_ofList, Text.trim_eq_self plain,
    decimal?_of_digits digits some_ small short split]
  rfl

/-- What is read, between blanks, as a decimal or as an integer, and that nothing else is: the fault
then keeps the whole text. No reader of words makes a difference to it if it reads digits. -/
theorem parse_iff_denotes (x : String) :
    Text.IsTrimmed x.toList (Text.trim x.toList) ∧
    (∀ d, parseDecimal x = .ok d ↔ Denotes (Text.trim x.toList) d) ∧
    (∀ fault, parseDecimal x = .error fault ↔
      (¬ ∃ d, Denotes (Text.trim x.toList) d) ∧ fault = .invalidDecimal x) ∧
    (∀ n, parseInteger x = .ok n ↔ DenotesInteger (Text.trim x.toList) n) ∧
    (∀ fault, parseInteger x = .error fault ↔
      (¬ ∃ n, DenotesInteger (Text.trim x.toList) n) ∧ fault = .invalidInteger x) ∧
    ∀ read, ReadsDigits read →
      parseDecimalBy read x = parseDecimal x ∧ parseIntegerBy read x = parseInteger x :=
  ⟨Text.isTrimmed_trim x.toList, fun _ => parseDecimal_eq_ok_iff, fun _ => parseDecimal_eq_error_iff,
    fun _ => parseInteger_eq_ok_iff, fun _ => parseInteger_eq_error_iff,
    fun _ reads => ⟨parseDecimalBy_eq reads x, parseIntegerBy_eq reads x⟩⟩

/-- A word of 256 bits in the radix of its mark, in which underscores do not count. -/
def readWord? (cs : List Char) : Option Nat :=
  let (radix, digits) := Node.radixOf cs
  (Text.addDigits radix bound 0 (digits.filter (· ≠ '_'))).toOption

theorem digitValue?_of_isDigit {c : Char} (digit : c.isDigit = true) :
    Text.digitValue? 10 c = some (Json.digitValue c) := by
  have small := digitValue_lt digit
  have range : '0' ≤ c ∧ c ≤ '9' := by
    simp only [Char.isDigit, Bool.and_eq_true, decide_eq_true_eq] at digit
    exact digit
  have value : Text.hexValue? c = some (Json.digitValue c) := if_pos range
  rw [Text.digitValue?, value, Option.filter_some, decide_eq_true small, if_pos rfl]

/-- Digits are added up to the number that they denote, as long as it stays below the limit. -/
theorem addDigits_eq {ds : List Char} (digits : IsDigits ds) {limit n : Nat} (small : n < limit) :
    (Text.addDigits 10 limit n ds).toOption =
      if Nat.ofDigitChars 10 ds n < limit then some (Nat.ofDigitChars 10 ds n) else none := by
  induction ds generalizing n with
  | nil =>
      rw [Nat.ofDigitChars_nil, if_pos small]
      rfl
  | cons c cs ih =>
      obtain ⟨digit, digits⟩ := isDigits_cons.mp digits
      rw [Nat.ofDigitChars_cons, Text.addDigits, digitValue?_of_isDigit digit]
      by_cases next : 10 * n + Json.digitValue c < limit
      · simp only [next, if_true]
        exact ih digits next
      · have beyond : ¬ Nat.ofDigitChars 10 cs (10 * n + Json.digitValue c) < limit :=
          fun fits => next (Nat.lt_of_le_of_lt (Json.le_ofDigitChars cs _) fits)
        simp only [next, if_false]
        rw [Json.digitValue] at beyond
        rw [if_neg beyond]
        rfl

theorem radixOf_of_isDigits {ds : List Char} (digits : IsDigits ds) :
    Node.radixOf ds = (10, ds) := by
  unfold Node.radixOf
  split
  case h_7 => rfl
  all_goals exact absurd (digits _ (List.mem_cons_of_mem _ List.mem_cons_self)) (by decide)

theorem readsDigits_readWord? : ReadsDigits readWord? := by
  intro ds _ digits
  have plain : ds.filter (· ≠ '_') = ds := by
    refine List.filter_eq_self.mpr fun c member => decide_eq_true ?_
    rintro rfl
    exact absurd (digits '_' member) (by decide)
  simp only [readWord?, radixOf_of_isDigits digits, plain]
  exact addDigits_eq digits (twoTo_pos 256)

/-- Zeros in front and a point are read; a mark of a radix, which the reader of words would take, is
not, nor is a number that has one bit too many. -/
theorem parse_iff_denotes_of_marked :
    parseDecimalBy readWord? "\t007.50\u3000" = .ok ⟨750, 2⟩ ∧
      parseInteger " 0017 " = .ok 17 ∧
      readWord? "0x1_0".toList = some 16 ∧ parseInteger "0x1_0" = .error (.invalidInteger "0x1_0") ∧
      parseDecimal (String.ofList (numeral bound)) =
        .error (.invalidDecimal (String.ofList (numeral bound))) := by
  obtain ⟨-, decimal, -, -, -, reader⟩ := parse_iff_denotes "\t007.50\u3000"
  obtain ⟨-, -, -, integer, -, -⟩ := parse_iff_denotes " 0017 "
  obtain ⟨-, -, -, -, marked, -⟩ := parse_iff_denotes "0x1_0"
  obtain ⟨-, -, large, -⟩ := parse_iff_denotes (String.ofList (numeral bound))
  refine ⟨?_, ?_, by decide, ?_, ?_⟩
  · rw [(reader readWord? readsDigits_readWord?).1, decimal]
    exact ⟨by decide, by decide, by decide, by decide, by decide⟩
  · exact (integer 17).mpr ⟨by decide, by decide, by decide, by decide⟩
  · refine (marked _).mpr ⟨?_, rfl⟩
    rintro ⟨n, denotes⟩
    exact absurd (denotes.digits 'x' (by decide)) (by decide)
  · refine (large _).mpr ⟨?_, rfl⟩
    have plain : ∀ c ∈ numeral bound, Text.isBlank c = false := fun c member =>
      Rfc3339.isBlank_of_isDigit ((isWhole_numeral bound).digits c member)
    rw [String.toList_ofList, Text.trim_eq_self plain]
    rintro ⟨d, denotes⟩
    have mantissa := denotes.mantissa
    rw [filter_of_isDigits (isWhole_numeral bound).digits, ofDigitChars_numeral] at mantissa
    exact absurd (mantissa ▸ denotes.small) (Nat.lt_irrefl bound)

end Amount

end VaultTransfers
