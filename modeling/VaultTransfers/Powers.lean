/-!
Powers of two and of ten, the bounds of integers and the units of decimals.
-/

namespace VaultTransfers

def twoTo (n : Nat) : Nat := Nat.pow 2 n

def tenTo (n : Nat) : Nat := Nat.pow 10 n

theorem twoTo_zero : twoTo 0 = 1 := rfl

theorem twoTo_succ (n : Nat) : twoTo (n + 1) = twoTo n * 2 := rfl

theorem tenTo_zero : tenTo 0 = 1 := rfl

theorem tenTo_succ (n : Nat) : tenTo (n + 1) = tenTo n * 10 := rfl

theorem twoTo_pos (n : Nat) : 0 < twoTo n := by
  induction n with
  | zero => simp [twoTo_zero]
  | succ n ih => simp [twoTo_succ, ih]

theorem tenTo_pos (n : Nat) : 0 < tenTo n := by
  induction n with
  | zero => simp [tenTo_zero]
  | succ n ih => simp [tenTo_succ, ih]

end VaultTransfers
