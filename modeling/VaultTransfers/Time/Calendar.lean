/-!
The proleptic Gregorian calendar. Days are counted from 1970-01-01; the year of
a day is estimated from the mean length of a year and corrected by at most one,
so that each step is linear arithmetic.
-/

namespace VaultTransfers

structure CivilDate where
  year : Int
  month : Nat
  day : Nat
deriving DecidableEq, Repr

namespace Calendar

/-- Days from 0000-01-01 to the first day of a year. -/
def yearStart (y : Int) : Int :=
  365 * y + (y + 3) / 4 - (y + 99) / 100 + (y + 399) / 400

/-- The days from 0000-01-01 to 1970-01-01. -/
def epoch : Int := 719528

def isLeap (y : Int) : Bool :=
  y % 4 = 0 && (y % 100 ≠ 0 || y % 400 = 0)

def monthLengths (y : Int) : List Nat :=
  [31, if isLeap y then 29 else 28, 31, 30, 31, 30, 31, 31, 30, 31, 30, 31]

def monthLength (y : Int) (month : Nat) : Nat :=
  (monthLengths y).getD (month - 1) 0

/-- The year that contains the day `z`, counted from 0000-01-01. -/
def yearOf (z : Int) : Int :=
  let guess := 400 * z / 146097
  if z < yearStart guess then guess - 1
  else if yearStart (guess + 1) ≤ z then guess + 1
  else guess

/-- The month and day at an offset from the first day of the first month given. -/
def monthAndDay : List Nat → (month : Nat) → (offset : Nat) → Nat × Nat
  | [], month, offset => (month, offset + 1)
  | length :: lengths, month, offset =>
    if offset < length then (month, offset + 1)
    else monthAndDay lengths (month + 1) (offset - length)

theorem yearStart_add_one (y : Int) :
    yearStart (y + 1) = yearStart y + if isLeap y then 366 else 365 := by
  simp only [yearStart, isLeap, Bool.and_eq_true, Bool.or_eq_true, decide_eq_true_eq, ne_eq]
  split <;> omega

theorem yearStart_yearOf_le (z : Int) : yearStart (yearOf z) ≤ z := by
  simp only [yearOf]
  split
  · simp only [yearStart] at *; omega
  · split
    · assumption
    · omega

theorem lt_yearStart_yearOf_add_one (z : Int) : z < yearStart (yearOf z + 1) := by
  simp only [yearOf]
  split
  · rename_i h
    rwa [Int.sub_add_cancel]
  · split
    · simp only [yearStart] at *; omega
    · omega

end Calendar

namespace CivilDate

def isValid (d : CivilDate) : Bool :=
  1 ≤ d.month && d.month ≤ 12 && 1 ≤ d.day && d.day ≤ Calendar.monthLength d.year d.month

/-- Days since 1970-01-01. -/
def toDays (d : CivilDate) : Int :=
  Calendar.yearStart d.year - Calendar.epoch
    + (((Calendar.monthLengths d.year).take (d.month - 1)).foldl (· + ·) 0 : Nat) + (d.day - 1 : Nat)

def ofDays (n : Int) : CivilDate :=
  let z := n + Calendar.epoch
  let year := Calendar.yearOf z
  let (month, day) :=
    Calendar.monthAndDay (Calendar.monthLengths year) 1 (z - Calendar.yearStart year).toNat
  ⟨year, month, day⟩

example : ofDays 0 = ⟨1970, 1, 1⟩ := by decide
example : ofDays 11016 = ⟨2000, 2, 29⟩ := by decide
example : (⟨-1, 12, 31⟩ : CivilDate).toDays = Calendar.yearStart 0 - Calendar.epoch - 1 := by decide

end CivilDate

end VaultTransfers
