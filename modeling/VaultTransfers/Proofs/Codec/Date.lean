import VaultTransfers.Proofs.Codec.Calendar
import VaultTransfers.Time.Rfc3339

/-!
An instant is read back from its text, whatever its year and its fraction, and
in a leap second at the end of a minute too. A leap second within a minute has no
text of its own: it is written, and so read, as the second behind it.
-/

namespace VaultTransfers

namespace Instant

/-- A clock shows the instant: a leap second stands at the end of its minute. -/
def OnClock (t : Instant) : Prop :=
  t.isLeap = true → t.second % 60 = 59

instance (t : Instant) : Decidable t.OnClock :=
  inferInstanceAs (Decidable (_ → _))

/-- What a clock shows at the instant. A leap second within a minute is shown as the second behind
it. -/
def shown (t : Instant) : Instant :=
  if within : t.isLeap = true ∧ t.second % 60 ≠ 59 then
    { second := t.second + 1
      nanos := t.nanos - 1000000000
      first_le := Int.le_trans t.first_le (Int.le_add_one (Int.le_refl _))
      le_last := by
        have last := t.le_last
        have minute := within.2
        omega
      nanos_lt := Nat.lt_of_le_of_lt (Nat.sub_le _ _) t.nanos_lt }
  else t

theorem shown_of_onClock {t : Instant} (onClock : t.OnClock) : t.shown = t := by
  rw [shown, dif_neg]
  rintro ⟨leap, within⟩
  exact within (onClock leap)

theorem shown_of_within {t : Instant} (leap : t.isLeap = true) (within : t.second % 60 ≠ 59) :
    t.shown.second = t.second + 1 ∧ t.shown.nanos = t.nanos - 1000000000 := by
  rw [shown, dif_pos ⟨leap, within⟩]
  exact ⟨rfl, rfl⟩

theorem shown_eq_self_iff {t : Instant} : t.shown = t ↔ t.OnClock := by
  refine ⟨fun same leap => Decidable.byContradiction fun within => ?_, shown_of_onClock⟩
  have later := (shown_of_within leap within).1
  rw [same] at later
  omega

theorem onClock_of_isLeap {t : Instant} (plain : t.isLeap = false) : t.OnClock := by
  intro leap
  rw [plain] at leap
  cases leap

/-- Whole milliseconds of Unix time do not fall into leap seconds. -/
theorem onClock_ofUnixMillis (millis : Int) : (ofUnixMillis millis).OnClock := by
  refine onClock_of_isLeap (decide_eq_false ?_)
  simp only [ofUnixMillis]
  omega

theorem onClock_of_ofUnix? {second : Int} {t : Instant} (known : ofUnix? second = some t) :
    t.OnClock := by
  unfold ofUnix? of? at known
  split at known
  · cases known
    exact onClock_of_isLeap rfl
  · cases known

end Instant

namespace Rfc3339

open Text (trimStart isBlank)

theorem isDigit_of_mem_padded {width n : Nat} {c : Char} (member : c ∈ padded width n) :
    c.isDigit = true := by
  simp only [padded, List.mem_append] at member
  rcases member with zero | digit
  · rw [List.eq_of_mem_replicate zero]
    rfl
  · exact Nat.isDigit_of_mem_toDigits (by decide) (by decide) digit

theorem ofDigitChars_padded (width n : Nat) : Nat.ofDigitChars 10 (padded width n) 0 = n := by
  simp [padded, Nat.ofDigitChars_append]

theorem length_padded {width n : Nat} (positive : 0 < width) (fits : n < tenTo width) :
    (padded width n).length = width := by
  have short := (Nat.length_toDigits_le_iff (by decide) positive).mpr fits
  simp only [padded, List.length_append, List.length_replicate]
  omega

theorem padded_ne_nil (width n : Nat) : padded width n ≠ [] := by
  simp [padded]

theorem isBlank_of_isDigit {c : Char} (digit : c.isDigit = true) : isBlank c = false := by
  simp only [Char.isDigit, Bool.and_eq_true, decide_eq_true_eq] at digit
  have low : 48 ≤ c.toNat := digit.1
  have high : c.toNat ≤ 57 := digit.2
  simp only [isBlank, List.any_eq_false, Bool.and_eq_true, decide_eq_true_eq]
  intro r member
  simp only [Text.blankRanges, List.mem_cons, List.not_mem_nil, or_false] at member
  rcases member with rfl | rfl | rfl | rfl | rfl | rfl | rfl | rfl | rfl | rfl <;>
    simp only <;> omega

theorem trimStart_padded (width n : Nat) (rest : List Char) :
    trimStart (padded width n ++ rest) = padded width n ++ rest := by
  cases digits : padded width n with
  | nil => exact absurd digits (padded_ne_nil width n)
  | cons c cs =>
      have plain := isBlank_of_isDigit (isDigit_of_mem_padded (digits ▸ List.mem_cons_self))
      rw [trimStart, List.cons_append, List.dropWhile_cons, plain]
      rfl

/-- Digits up to a character that is none are read as the number that they were written from. -/
theorem digits_padded {limit : Option Nat} {width n : Nat} {rest : List Char}
    (stop : (limit.elim (padded width n ++ rest) (padded width n ++ rest).take).takeWhile Char.isDigit
      = padded width n) :
    digits limit (padded width n ++ rest) = .ok (n, rest) := by
  unfold digits
  cases text : padded width n with
  | nil => exact absurd text (padded_ne_nil width n)
  | cons c cs =>
      have digit := isDigit_of_mem_padded (text ▸ List.mem_cons_self : c ∈ padded width n)
      rw [text] at stop
      have value := ofDigitChars_padded width n
      rw [text] at value
      simp only [List.cons_append] at stop ⊢
      simp only [digit, if_true, stop, value, List.length_cons, List.drop_succ_cons, List.drop_left]

theorem takeWhile_of_all {ds rest : List Char} (all : ∀ c ∈ ds, c.isDigit = true)
    (stop : ∀ c cs, rest = c :: cs → c.isDigit = false) :
    (ds ++ rest).takeWhile Char.isDigit = ds := by
  rw [List.takeWhile_append_of_pos all]
  cases rest with
  | nil => simp
  | cons c cs => simp [stop c cs rfl]

theorem digits_padded_of_width {width n : Nat} (positive : 0 < width) (fits : n < tenTo width)
    (rest : List Char) : digits (some width) (padded width n ++ rest) = .ok (n, rest) := by
  apply digits_padded
  have length := length_padded positive fits
  rw [Option.elim_some, List.take_append_of_le_length (by omega), List.take_of_length_le (by omega)]
  have all : ∀ c ∈ padded width n, c.isDigit = true := fun c member => isDigit_of_mem_padded member
  have whole : (padded width n ++ []).takeWhile Char.isDigit = padded width n :=
    takeWhile_of_all all (by simp)
  rwa [List.append_nil] at whole

theorem field_padded {low high n : Nat} (from_ : low ≤ n) (until_ : n ≤ high) (fits : n < 100)
    (rest : List Char) : field low high (padded 2 n ++ rest) = .ok (n, rest) := by
  unfold field
  rw [trimStart_padded, digits_padded_of_width (by decide) fits]
  simp [bind, Except.bind, from_, until_]

theorem mark_cons {c : Char} (plain : isBlank c = false) (rest : List Char) :
    mark c (c :: rest) = .ok rest := by
  simp [mark, trimStart, plain]

theorem digits_none_padded (width n : Nat) {c : Char} (stop : c.isDigit = false)
    (rest : List Char) : digits none (padded width n ++ c :: rest) = .ok (n, c :: rest) := by
  apply digits_padded
  rw [Option.elim_none]
  apply takeWhile_of_all
  · intro d member
    exact isDigit_of_mem_padded member
  · intro d ds same
    rw [← (List.cons.inj same).1, stop]

theorem year_yearText {y : Int} (from_ : -2147483648 ≤ y) (until_ : y ≤ 2147483647)
    (rest : List Char) : year (yearText y ++ '-' :: rest) = .ok (y, '-' :: rest) := by
  unfold yearText
  split
  · rename_i plain
    have small : y.toNat < 10000 := by omega
    have read := digits_padded_of_width (by decide : 0 < 4) small ('-' :: rest)
    have trimmed := trimStart_padded 4 y.toNat ('-' :: rest)
    have value : (y.toNat : Int) = y := Int.toNat_of_nonneg plain.1
    unfold year
    rw [trimmed]
    cases text : padded 4 y.toNat with
    | nil => exact absurd text (padded_ne_nil 4 _)
    | cons c cs =>
        have digit := isDigit_of_mem_padded (text ▸ List.mem_cons_self : c ∈ padded 4 y.toNat)
        rw [text] at read
        split
        · rename_i minus
          rw [(List.cons.inj minus).1] at digit
          simp at digit
        · rename_i plus
          rw [(List.cons.inj plus).1] at digit
          simp at digit
        · rw [read]
          simp [bind, Except.bind, value, from_, until_]
  · rename_i signed
    have read := digits_none_padded 4 y.natAbs (rfl : '-'.isDigit = false) rest
    have trimmed {sign : Char} (plain : isBlank sign = false) :
        trimStart (sign :: (padded 4 y.natAbs ++ '-' :: rest)) =
          sign :: (padded 4 y.natAbs ++ '-' :: rest) := by
      simp [trimStart, plain]
    by_cases negative : y < 0
    · have value : -(y.natAbs : Int) = y := by omega
      rw [if_pos negative, List.cons_append]
      unfold year
      rw [trimmed (by decide)]
      simp only [bind, Except.bind, read, value]
      rw [if_pos ⟨from_, until_⟩]
    · have value : (y.natAbs : Int) = y := by omega
      rw [if_neg negative, List.cons_append]
      unfold year
      rw [trimmed (by decide)]
      simp only [bind, Except.bind, read, value]
      rw [if_pos ⟨from_, until_⟩]

theorem date_text {d : CivilDate} (from_ : -2147483648 ≤ d.year) (until_ : d.year ≤ 2147483647)
    (month : 1 ≤ d.month ∧ d.month ≤ 12) (day : 1 ≤ d.day ∧ d.day ≤ 31) (rest : List Char) :
    date (yearText d.year ++ '-' :: (padded 2 d.month ++ '-' :: (padded 2 d.day ++ rest))) =
      .ok (d, rest) := by
  have hyphen : isBlank '-' = false := by decide
  unfold date
  rw [year_yearText from_ until_]
  simp only [bind, Except.bind]
  rw [mark_cons hyphen]
  simp only
  rw [field_padded month.1 month.2 (by omega)]
  simp only
  rw [mark_cons hyphen]
  simp only
  rw [field_padded day.1 day.2 (by omega)]

theorem fraction_fractionText {nanos : Nat} (fits : nanos < 1000000000) (rest : List Char) :
    fraction (fractionText nanos ++ 'Z' :: rest) = .ok (nanos, 'Z' :: rest) := by
  have scaled (width n : Nat) (positive : 0 < width) (short : width ≤ 9) (small : n < 10 ^ width) :
      fraction ('.' :: (padded width n ++ 'Z' :: rest)) =
        .ok (n * tenTo (9 - width), 'Z' :: rest) := by
    have length := length_padded positive small
    have read : digits (some 9) (padded width n ++ 'Z' :: rest) = .ok (n, 'Z' :: rest) := by
      apply digits_padded
      rw [Option.elim_some, List.take_append, List.take_of_length_le (by omega)]
      apply takeWhile_of_all
      · intro c member
        exact isDigit_of_mem_padded member
      · intro c cs same
        cases taken : 9 - (padded width n).length with
        | zero => simp [taken] at same
        | succ k =>
            rw [taken, List.take_succ_cons] at same
            rw [← (List.cons.inj same).1]
            rfl
    have consumed : (padded width n ++ 'Z' :: rest).length - ('Z' :: rest).length = width := by
      rw [List.length_append]
      omega
    have letter : ('Z' :: rest).dropWhile Char.isDigit = 'Z' :: rest := by
      simp
    simp only [fraction, bind, Except.bind, read, consumed, letter]
  unfold fractionText
  split
  · rename_i zero
    rw [zero]
    rfl
  split
  · rename_i whole
    rw [List.cons_append, scaled 3 (nanos / 1000000) (by decide) (by decide) (by omega)]
    have back : nanos / 1000000 * tenTo 6 = nanos := by
      have million : tenTo 6 = 1000000 := rfl
      rw [million]
      omega
    exact congrArg (fun n => Except.ok (n, 'Z' :: rest)) back
  split
  · rename_i whole
    rw [List.cons_append, scaled 6 (nanos / 1000) (by decide) (by decide) (by omega)]
    have back : nanos / 1000 * tenTo 3 = nanos := by
      have thousand : tenTo 3 = 1000 := rfl
      rw [thousand]
      omega
    exact congrArg (fun n => Except.ok (n, 'Z' :: rest)) back
  · rw [List.cons_append, scaled 9 nanos (by decide) (by decide) (by omega)]
    exact congrArg (fun n => Except.ok (n, 'Z' :: rest)) (Nat.mul_one nanos)

theorem time_text {clock nanos : Nat} {leap : Bool} (within : clock < 86400)
    (fits : nanos < 1000000000) (ends : leap = true → clock % 60 = 59) (rest : List Char) :
    time (padded 2 (clock / 3600) ++ ':' :: (padded 2 (clock / 60 % 60) ++ ':' ::
        (padded 2 (clock % 60 + if leap then 1 else 0) ++ (fractionText nanos ++ 'Z' :: rest)))) =
      .ok ((clock, if leap then nanos + 1000000000 else nanos), 'Z' :: rest) := by
  have colon : isBlank ':' = false := by decide
  have second : clock % 60 + (if leap then 1 else 0) ≤ 60 := by
    split
    · omega
    · omega
  unfold time
  rw [field_padded (Nat.zero_le _) (by omega) (by omega)]
  simp only [bind, Except.bind]
  rw [mark_cons colon]
  simp only
  rw [field_padded (Nat.zero_le _) (by omega) (by omega)]
  simp only
  rw [mark_cons colon]
  simp only
  rw [field_padded (Nat.zero_le _) second (by omega)]
  simp only
  rw [fraction_fractionText fits]
  simp only
  cases leap with
  | true =>
      have last := ends rfl
      have hand : clock / 3600 * 3600 + clock / 60 % 60 * 60 + 59 = clock := by omega
      simp [last, hand]
  | false =>
      have hand : clock / 3600 * 3600 + clock / 60 % 60 * 60 + min (clock % 60) 59 = clock := by
        omega
      have other : clock % 60 ≠ 60 := by omega
      simp [hand, other]

theorem trimStart_of_separator {c : Char} (plain : isBlank c = false) (rest : List Char) :
    trimStart (c :: rest) = c :: rest := by
  simp [trimStart, plain]

/-- A date of the calendar and a second of the day in UTC make up an instant. -/
theorem assemble_eq (t : Instant) : assemble t.date t.secondOfDay t.nanos 0 = .ok t := by
  have first := t.first_le
  have last := t.le_last
  have valid := CivilDate.isValid_ofDays (t.second / 86400)
  have years := CivilDate.year_ofDays_bounds (n := t.second / 86400) (by omega) (by omega)
  have days := CivilDate.toDays_ofDays (t.second / 86400)
  have second : t.date.toDays * 86400 + t.secondOfDay - 0 * 60 = t.second := by
    have rest : (t.secondOfDay : Int) = t.second % 86400 :=
      Int.toNat_of_nonneg (Int.emod_nonneg _ (by decide))
    rw [Instant.date, days, rest]
    omega
  have whole : Instant.of? t.second t.nanos = some t := by
    rw [Instant.of?, dif_pos ⟨⟨first, last⟩, t.nanos_lt⟩]
  unfold assemble
  rw [if_neg, if_neg (by decide), second, whole]
  simp only [Instant.date, valid, Bool.not_true, Bool.false_eq_true, false_or, not_or]
  omega

theorem parse_render {t : Instant} (onClock : t.OnClock) : parse (render t) = .ok t := by
  have first := t.first_le
  have last := t.le_last
  have valid := CivilDate.isValid_ofDays (t.second / 86400)
  have years := CivilDate.year_ofDays_bounds (n := t.second / 86400) (by omega) (by omega)
  have within : t.secondOfDay < 86400 := by
    unfold Instant.secondOfDay
    omega
  have ends : t.isLeap = true → t.secondOfDay % 60 = 59 := by
    intro leap
    have minute := onClock leap
    unfold Instant.secondOfDay
    omega
  have nanos : (if t.isLeap then t.nanos % 1000000000 + 1000000000 else t.nanos % 1000000000) =
      t.nanos := by
    have bound := t.nanos_lt
    cases leap : t.isLeap with
    | true =>
        have long : 1000000000 ≤ t.nanos := of_decide_eq_true leap
        rw [if_pos rfl]
        omega
    | false =>
        have short : ¬ 1000000000 ≤ t.nanos := of_decide_eq_false leap
        rw [if_neg Bool.false_ne_true]
        omega
  simp only [CivilDate.isValid, Bool.and_eq_true, decide_eq_true_eq] at valid
  obtain ⟨⟨⟨month, month'⟩, day⟩, day'⟩ := valid
  have inMonth := Calendar.monthLength_le (CivilDate.ofDays (t.second / 86400)).year
    (CivilDate.ofDays (t.second / 86400)).month
  have reached : -2147483648 ≤ t.date.year ∧ t.date.year ≤ 2147483647 := by
    unfold Instant.date
    omega
  have dated := date_text (d := t.date) reached.1 reached.2 ⟨month, month'⟩
    ⟨day, Nat.le_trans day' inMonth⟩
  have timed := time_text within (Nat.mod_lt t.nanos (by decide)) ends []
  have text : render t = yearText t.date.year ++ '-' :: (padded 2 t.date.month ++ '-' ::
      (padded 2 t.date.day ++ 'T' :: (padded 2 (t.secondOfDay / 3600) ++ ':' ::
        (padded 2 (t.secondOfDay / 60 % 60) ++ ':' ::
          (padded 2 (t.secondOfDay % 60 + if t.isLeap then 1 else 0) ++
            (fractionText (t.nanos % 1000000000) ++ ['Z'])))))) := by
    simp [render]
  unfold parse
  rw [text, dated]
  simp only [bind, Except.bind, separator, true_or, if_true]
  rw [timed]
  simp only
  rw [trimStart_of_separator (by decide)]
  simp only [offset, true_or, if_true]
  rw [nanos]
  exact assemble_eq t

/-- A leap second within a minute is written as the second behind it. -/
theorem render_shown (t : Instant) : render t.shown = render t := by
  by_cases onClock : t.OnClock
  · rw [Instant.shown_of_onClock onClock]
  · obtain ⟨leap, within⟩ := Classical.not_imp.mp onClock
    have long : 1000000000 ≤ t.nanos := of_decide_eq_true leap
    have bound := t.nanos_lt
    obtain ⟨second, nanos⟩ := Instant.shown_of_within leap within
    have plain : t.shown.isLeap = false := by
      rw [Instant.isLeap, decide_eq_false_iff_not, nanos]
      omega
    have day : t.shown.second / 86400 = t.second / 86400 := by
      rw [second]
      omega
    have clock : t.shown.secondOfDay = t.secondOfDay + 1 := by
      rw [Instant.secondOfDay, Instant.secondOfDay, second]
      omega
    have short : t.secondOfDay % 60 ≠ 59 := by
      unfold Instant.secondOfDay
      omega
    have hour : (t.secondOfDay + 1) / 3600 = t.secondOfDay / 3600 := by omega
    have minute : (t.secondOfDay + 1) / 60 = t.secondOfDay / 60 := by omega
    have hand : (t.secondOfDay + 1) % 60 = t.secondOfDay % 60 + 1 := by omega
    have rest : (t.nanos - 1000000000) % 1000000000 = t.nanos % 1000000000 := by omega
    simp only [render, Instant.date, day, clock, hour, minute, hand, leap, plain, nanos, rest, if_true,
      Bool.false_eq_true, if_false, Nat.add_zero]

end Rfc3339

namespace Instant

theorem onClock_shown (t : Instant) : t.shown.OnClock := by
  by_cases onClock : t.OnClock
  · rwa [shown_of_onClock onClock]
  · obtain ⟨leap, within⟩ := Classical.not_imp.mp onClock
    have bound := t.nanos_lt
    refine onClock_of_isLeap ?_
    rw [isLeap, decide_eq_false_iff_not, (shown_of_within leap within).2]
    omega

/-- The text of an instant is that of what a clock shows. -/
theorem ofText_toText (t : Instant) : ofText t.toText = .ok t.shown := by
  rw [ofText, toText, String.toList_ofList, ← Rfc3339.render_shown]
  exact Rfc3339.parse_render t.onClock_shown

end Instant

end VaultTransfers
