import VaultTransfers.Program
import VaultTransfers.Store.Fault

/-!
The scan cursor: the last block whose events have all been recorded. It is moved
by compare-and-set, and only forward.
-/

namespace VaultTransfers

structure Cursor where
  block : UInt64
deriving DecidableEq, Repr

namespace Cursor

inductive Call where
  | read
  /-- Answered with whether the cursor was moved. -/
  | advance (source target : UInt64)
deriving DecidableEq

abbrev Value : Call → Type
  | .read => UInt64
  | .advance _ _ => Bool

def interface : Interface where
  Call := Call
  Reply := fun c => Except StoreFault (Value c)

/-- Whether the cursor may be moved from `source`, where its reader saw it, to `target`. -/
def admits (c : Cursor) (source target : UInt64) : Bool :=
  c.block = source && source < target

/-- The cursor kept in memory. -/
def answer : (c : Call) → StateM Cursor (interface.Reply c)
  | .read => fun cursor => (.ok cursor.block, cursor)
  | .advance source target => fun cursor =>
    if cursor.admits source target then (.ok true, ⟨target⟩) else (.ok false, cursor)

end Cursor

end VaultTransfers
