import VaultTransfers.Time.Calendar

/-!
Days and civil dates determine each other: the date of a day is one of the
calendar, and its day is the day.
-/

namespace VaultTransfers

namespace Calendar

/-- Where an offset falls among the months. -/
theorem monthAndDay_spec (lengths : List Nat) (month offset : Nat)
    (within : offset < lengths.foldl (· + ·) 0) :
    ∃ k, k < lengths.length ∧ (monthAndDay lengths month offset).1 = month + k ∧
      1 ≤ (monthAndDay lengths month offset).2 ∧
      (monthAndDay lengths month offset).2 ≤ lengths.getD k 0 ∧
      (lengths.take k).foldl (· + ·) 0 + ((monthAndDay lengths month offset).2 - 1) = offset := by
  simp only [← List.sum_eq_foldl_nat] at within ⊢
  induction lengths generalizing month offset with
  | nil => simp at within
  | cons length lengths ih =>
      rw [monthAndDay]
      by_cases here : offset < length
      · rw [if_pos here]
        refine ⟨0, by simp, rfl, by simp, ?_, by simp⟩
        rw [List.getD_cons_zero]
        exact here
      · rw [if_neg here]
        rw [List.sum_cons] at within
        obtain ⟨k, bound, months, first, last, days⟩ :=
          ih (month + 1) (offset - length) (by omega)
        refine ⟨k + 1, by simpa using bound, by omega, first, ?_, ?_⟩
        · rw [List.getD_cons_succ]
          exact last
        · rw [List.take_succ_cons, List.sum_cons]
          omega

theorem sum_monthLengths (y : Int) :
    (monthLengths y).foldl (· + ·) 0 = if isLeap y then 366 else 365 := by
  unfold monthLengths
  cases isLeap y with
  | true => rfl
  | false => rfl

theorem yearStart_le_add (y : Int) (k : Nat) : yearStart y ≤ yearStart (y + k) := by
  induction k with
  | zero => simp
  | succ k ih =>
      have step := yearStart_add_one (y + k)
      rw [Int.natCast_succ, ← Int.add_assoc, step]
      split
      · omega
      · omega

theorem yearStart_mono {y z : Int} (later : y ≤ z) : yearStart y ≤ yearStart z := by
  obtain ⟨k, rfl⟩ := Int.le.dest later
  exact yearStart_le_add y k

theorem monthLength_le (y : Int) (month : Nat) : monthLength y month ≤ 31 := by
  have bounded : ∀ n ∈ monthLengths y, n ≤ 31 := by
    intro n member
    unfold monthLengths at member
    cases leap : isLeap y with
    | true =>
        rw [leap] at member
        revert n
        decide
    | false =>
        rw [leap] at member
        revert n
        decide
  unfold monthLength
  rw [List.getD_eq_getElem?_getD]
  cases found : (monthLengths y)[month - 1]? with
  | none => simp
  | some n => exact bounded n (List.mem_of_getElem? found)

end Calendar

namespace CivilDate

open Calendar

/-- The first day of the year, the months before and the days before make up a day. -/
theorem ofDays_spec (n : Int) : (ofDays n).isValid = true ∧ (ofDays n).toDays = n := by
  have from_ := yearStart_yearOf_le (n + epoch)
  have until_ := lt_yearStart_yearOf_add_one (n + epoch)
  rw [yearStart_add_one] at until_
  have within : (n + epoch - yearStart (yearOf (n + epoch))).toNat <
      (monthLengths (yearOf (n + epoch))).foldl (· + ·) 0 := by
    rw [sum_monthLengths]
    cases leap : isLeap (yearOf (n + epoch)) with
    | true =>
        rw [leap, if_pos rfl] at until_
        rw [if_pos rfl]
        omega
    | false =>
        rw [leap, if_neg Bool.false_ne_true] at until_
        rw [if_neg Bool.false_ne_true]
        omega
  obtain ⟨k, bound, month, first, last, days⟩ := monthAndDay_spec _ 1 _ within
  have twelve : (monthLengths (yearOf (n + epoch))).length = 12 := rfl
  have index : 1 + k - 1 = k := by omega
  constructor
  · simp only [isValid, ofDays, monthLength, month, index, Bool.and_eq_true, decide_eq_true_eq]
    exact ⟨⟨⟨by omega, by omega⟩, first⟩, last⟩
  · simp only [toDays, ofDays, month, index]
    omega

theorem toDays_ofDays (n : Int) : (ofDays n).toDays = n :=
  (ofDays_spec n).2

theorem isValid_ofDays (n : Int) : (ofDays n).isValid = true :=
  (ofDays_spec n).1

theorem year_ofDays_bounds {n : Int} (from_ : -96465292 ≤ n) (until_ : n ≤ 95026236) :
    -262143 ≤ (ofDays n).year ∧ (ofDays n).year ≤ 262142 := by
  have below := yearStart_yearOf_le (n + epoch)
  have above := lt_yearStart_yearOf_add_one (n + epoch)
  have year : (ofDays n).year = yearOf (n + epoch) := rfl
  have start : yearStart (-262143) = -96465292 + epoch := by decide
  have end_ : yearStart 262143 = 95026237 + epoch := by decide
  rw [year]
  constructor
  · refine Int.not_lt.mp fun early => ?_
    have bound := yearStart_mono (y := yearOf (n + epoch) + 1) (z := -262143) (by omega)
    omega
  · refine Int.not_lt.mp fun late => ?_
    have bound := yearStart_mono (y := 262143) (z := yearOf (n + epoch)) (by omega)
    omega

end CivilDate

end VaultTransfers
