import VaultTransfers.Time.Instant

/-!
Instants as the database keeps them: in microseconds from 2000-01-01, cut toward
that date. Out of leap seconds this changes no instant in whole microseconds; a
leap second is kept as the second behind it.
-/

namespace VaultTransfers.Instant

/-- Nanoseconds from 2000-01-01. A leap second counts as the second behind it. -/
def sinceMillennium (t : Instant) : Int :=
  (t.second - millennium) * 1000000000 + t.nanos

/-- The instant in whole microseconds, cut toward 2000-01-01. -/
structure Cut (t u : Instant) : Prop where
  whole : u.nanos % 1000 = 0
  unleaped : u.isLeap = false
  later : 0 ≤ t.sinceMillennium →
    u.sinceMillennium ≤ t.sinceMillennium ∧ t.sinceMillennium < u.sinceMillennium + 1000
  earlier : t.sinceMillennium < 0 →
    t.sinceMillennium ≤ u.sinceMillennium ∧ u.sinceMillennium - 1000 < t.sinceMillennium

theorem isLeap_eq_false_iff {t : Instant} : t.isLeap = false ↔ t.nanos < 1000000000 := by
  rw [isLeap, decide_eq_false_iff_not, Nat.not_le]

/-- What a count of microseconds from 2000-01-01 has to be to be that of an instant. -/
theorem microsSinceMillennium_eq_iff {t : Instant} {m : Int} :
    t.microsSinceMillennium = m ↔
      (0 ≤ t.sinceMillennium → m * 1000 ≤ t.sinceMillennium ∧ t.sinceMillennium < m * 1000 + 1000) ∧
      (t.sinceMillennium < 0 →
        t.sinceMillennium ≤ m * 1000 ∧ m * 1000 - 1000 < t.sinceMillennium) := by
  -- The division cuts toward zero; on either side of zero it is one that cuts downward.
  have cut : t.microsSinceMillennium = t.sinceMillennium.tdiv 1000 := rfl
  rw [cut]
  by_cases later : 0 ≤ t.sinceMillennium
  · rw [Int.tdiv_eq_ediv_of_nonneg later]
    omega
  · have back : t.sinceMillennium.tdiv 1000 = -(-t.sinceMillennium / 1000) := by
      rw [← Int.tdiv_eq_ediv_of_nonneg (by omega), Int.neg_tdiv, Int.neg_neg]
    rw [back]
    omega

/-- The instant without the nanoseconds behind its last whole microsecond. -/
def truncated (t : Instant) : Instant where
  second := t.second
  nanos := t.nanos / 1000 * 1000
  first_le := t.first_le
  le_last := t.le_last
  nanos_lt := Nat.lt_of_le_of_lt (Nat.div_mul_le_self _ _) t.nanos_lt

theorem of?_eq_some (t : Instant) : of? t.second t.nanos = some t := by
  rw [of?, dif_pos ⟨⟨t.first_le, t.le_last⟩, t.nanos_lt⟩]

/-- What the database keeps of an instant is the instant that is cut. -/
theorem ofMicros_of_cut {t u : Instant} (cut : t.Cut u) :
    ofMicrosSinceMillennium? t.microsSinceMillennium = some u := by
  obtain ⟨whole, unleaped, later, earlier⟩ := cut
  rw [isLeap_eq_false_iff] at unleaped
  have here : u.sinceMillennium = (u.second - millennium) * 1000000000 + u.nanos := rfl
  have micros : t.microsSinceMillennium =
      (u.second - millennium) * 1000000 + (u.nanos / 1000 : Nat) := by
    rw [microsSinceMillennium_eq_iff]
    omega
  have second : millennium + t.microsSinceMillennium / 1000000 = u.second := by
    rw [micros]
    omega
  have nanos : (t.microsSinceMillennium % 1000000).toNat * 1000 = u.nanos := by
    rw [micros]
    omega
  rw [ofMicrosSinceMillennium?, second, nanos, of?_eq_some]

/-- All instants can be cut but those in a leap second behind the last second. -/
theorem exists_cut_iff {t : Instant} :
    (∃ u, t.Cut u) ↔ (t.second = 8210266876799 → t.isLeap = false) := by
  have here : t.sinceMillennium = (t.second - millennium) * 1000000000 + t.nanos := rfl
  have start : millennium = 946684800 := rfl
  have first := t.first_le
  have last := t.le_last
  have short := t.nanos_lt
  constructor
  · rintro ⟨u, whole, unleaped, later, earlier⟩ at_end
    rw [isLeap_eq_false_iff] at unleaped ⊢
    have there : u.sinceMillennium = (u.second - millennium) * 1000000000 + u.nanos := rfl
    have last' := u.le_last
    omega
  · intro ends
    rw [isLeap_eq_false_iff] at ends
    obtain ⟨m, micros⟩ : ∃ m, t.microsSinceMillennium = m := ⟨_, rfl⟩
    obtain ⟨later, earlier⟩ := microsSinceMillennium_eq_iff.mp micros
    refine ⟨⟨millennium + m / 1000000, (m % 1000000).toNat * 1000, by omega, by omega, by omega⟩, ?_⟩
    refine ⟨Nat.mul_mod_left _ _, isLeap_eq_false_iff.mpr (by dsimp only; omega), ?_, ?_⟩
    · intro positive
      have bounds := later positive
      simp only [sinceMillennium] at bounds ⊢
      omega
    · intro negative
      have bounds := earlier negative
      simp only [sinceMillennium] at bounds ⊢
      omega

/-- An instant out of leap seconds loses the nanoseconds behind its last whole microsecond, from 2000
on or if there are none. -/
theorem eq_of_cut {t u : Instant} (unleaped : t.isLeap = false)
    (plain : millennium ≤ t.second ∨ t.nanos % 1000 = 0) (cut : t.Cut u) : u = t.truncated := by
  obtain ⟨whole, unleaped', later, earlier⟩ := cut
  rw [isLeap_eq_false_iff] at unleaped unleaped'
  simp only [sinceMillennium] at later earlier
  have second : u.second = t.second := by omega
  have nanos : u.nanos = t.nanos / 1000 * 1000 := by omega
  cases u
  cases second
  cases nanos
  rfl

end VaultTransfers.Instant
