import VaultTransfers.Transfer.Event

/-!
Places in the chain, times of recording and the order of discovery that they
make up are strict orders.
-/

namespace VaultTransfers

namespace Position

theorem before_iff {p q : Position} :
    p.before q = true ↔ p.block < q.block ∨ p.block = q.block ∧ p.logIndex < q.logIndex := by
  simp [before]

theorem before_trans {p q r : Position} (first : p.before q = true) (second : q.before r = true) :
    p.before r = true := by
  rw [before_iff, UInt64.lt_iff_toNat_lt, UInt64.lt_iff_toNat_lt, ← UInt64.toNat_inj] at *
  omega

theorem not_before_of_before {p q : Position} (earlier : p.before q = true) :
    q.before p = false := by
  rw [← Bool.not_eq_true]
  intro later
  have round := before_trans earlier later
  rw [before_iff] at round
  rcases round with less | ⟨-, less⟩
  · exact UInt64.lt_irrefl _ less
  · exact UInt64.lt_irrefl _ less

theorem not_before_self (p : Position) : p.before p = false := by
  simp [before]

theorem before_of_notAfter {p q : Position} (order : p.notAfter q = true) (other : p ≠ q) :
    p.before q = true := by
  rw [notAfter, Bool.not_eq_true', ← Bool.not_eq_true, before_iff] at order
  rw [before_iff]
  obtain ⟨block, logIndex⟩ := p
  obtain ⟨block', logIndex'⟩ := q
  simp only [ne_eq, Position.mk.injEq] at other
  simp only [UInt64.lt_iff_toNat_lt, ← UInt64.toNat_inj] at *
  omega

theorem notAfter_trans {p q r : Position} (first : p.notAfter q = true)
    (second : q.notAfter r = true) : p.notAfter r = true := by
  simp only [notAfter, Bool.not_eq_true', ← Bool.not_eq_true, before_iff, UInt64.lt_iff_toNat_lt,
    ← UInt64.toNat_inj] at *
  omega

theorem notAfter_total (p q : Position) : (p.notAfter q || q.notAfter p) = true := by
  simp only [notAfter, Bool.or_eq_true, Bool.not_eq_true', ← Bool.not_eq_true, before_iff,
    UInt64.lt_iff_toNat_lt, ← UInt64.toNat_inj]
  omega

theorem block_le_of_before {p q : Position} (earlier : p.before q = true) : p.block ≤ q.block := by
  rw [before_iff, UInt64.lt_iff_toNat_lt, ← UInt64.toNat_inj] at earlier
  rw [UInt64.le_iff_toNat_le]
  omega

end Position

namespace Instant

theorem before_iff {a b : Instant} :
    a.before b = true ↔ a.second < b.second ∨ a.second = b.second ∧ a.nanos < b.nanos := by
  simp [before]

theorem before_trans {a b c : Instant} (first : a.before b = true) (second : b.before c = true) :
    a.before c = true := by
  rw [before_iff] at *
  omega

theorem not_before_self (a : Instant) : a.before a = false := by
  rw [← Bool.not_eq_true, before_iff]
  omega

end Instant

namespace OutboxEvent

theorem foundBefore_iff {a b : OutboxEvent} :
    a.foundBefore b = true ↔ a.createdAt.before b.createdAt = true ∨
      a.createdAt = b.createdAt ∧ a.event.position.before b.event.position = true := by
  simp [foundBefore]

theorem not_foundBefore_of_foundBefore {a b : OutboxEvent} (found : a.foundBefore b = true) :
    b.foundBefore a = false := by
  rw [← Bool.not_eq_true]
  intro again
  rw [foundBefore_iff] at found again
  rcases found with earlier | ⟨same, earlier⟩
  · rcases again with later | ⟨same, _⟩
    · have round := Instant.before_trans earlier later
      rw [Instant.not_before_self] at round
      simp at round
    · rw [same, Instant.not_before_self] at earlier
      simp at earlier
  · rcases again with later | ⟨_, later⟩
    · rw [same, Instant.not_before_self] at later
      simp at later
    · rw [Position.not_before_of_before earlier] at later
      simp at later

theorem not_foundBefore_self (a : OutboxEvent) : a.foundBefore a = false := by
  rw [← Bool.not_eq_true]
  intro found
  have again := not_foundBefore_of_foundBefore found
  rw [found] at again
  simp at again

theorem notFoundBefore_trans {a b c : OutboxEvent} (first : b.foundBefore a = false)
    (second : c.foundBefore b = false) : c.foundBefore a = false := by
  have same {x y : Instant} : x = y ↔ x.second = y.second ∧ x.nanos = y.nanos := by
    obtain ⟨s, n⟩ := x
    obtain ⟨s', n'⟩ := y
    simp
  rw [← Bool.not_eq_true, foundBefore_iff, Instant.before_iff, Position.before_iff, same,
    UInt64.lt_iff_toNat_lt, UInt64.lt_iff_toNat_lt, ← UInt64.toNat_inj] at *
  omega

theorem pairwise_inOrder (events : List OutboxEvent) :
    (inOrder events).Pairwise fun a b => b.foundBefore a = false := by
  have sorted : (inOrder events).Pairwise fun a b => (!b.foundBefore a) = true := by
    apply List.pairwise_mergeSort
    · intro a b c first second
      rw [Bool.not_eq_true'] at *
      exact notFoundBefore_trans first second
    · intro a b
      cases found : b.foundBefore a with
      | false => rfl
      | true => simp [not_foundBefore_of_foundBefore found]
  exact sorted.imp fun order => by simpa using order

end OutboxEvent

end VaultTransfers
