import VaultTransfers.Program
import VaultTransfers.Store.Fault

/-!
The list of wallets that are watched. It only grows: a wallet is watched on a
chain from its registration on.
-/

namespace VaultTransfers

/-- A wallet on a chain. -/
structure Watched where
  wallet : String
  chainId : Int
deriving DecidableEq, Repr

structure WatchList where
  entries : List Watched
deriving DecidableEq, Repr

namespace WatchList

inductive Call where
  /-- Answered with whether the wallet is new. -/
  | register (w : Watched)
  | contains (w : Watched)
deriving DecidableEq

def interface : Interface where
  Call := Call
  Reply := fun _ => Except StoreFault Bool

def empty : WatchList := ⟨[]⟩

def contains (l : WatchList) (w : Watched) : Bool :=
  l.entries.contains w

def register (w : Watched) (l : WatchList) : WatchList :=
  if l.contains w then l else ⟨l.entries ++ [w]⟩

/-- The list kept in memory. -/
def answer : (c : Call) → StateM WatchList (interface.Reply c)
  | .register w => fun l => (.ok !l.contains w, l.register w)
  | .contains w => fun l => (.ok (l.contains w), l)

theorem contains_empty (w : Watched) : empty.contains w = false := rfl

theorem contains_register (l : WatchList) (w v : Watched) :
    (l.register w).contains v = (v == w || l.contains v) := by
  unfold register
  split
  · rename_i h
    by_cases e : v = w
    · subst e
      simp [h]
    · simp [e]
  · by_cases e : v = w <;> simp [contains, e]

end WatchList

end VaultTransfers
