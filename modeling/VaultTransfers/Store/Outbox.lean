import VaultTransfers.Program
import VaultTransfers.Store.Fault
import VaultTransfers.Store.Rows
import VaultTransfers.Transfer.Event

/-!
The outbox: recorded events on their way to the bus. A row waits until a
publisher claims it, is held by that publisher, and is then sent or put back. A
wallet of which a row is held is passed over by claims, and a claim takes rows
in the order of discovery, so that the events of one wallet leave in order. A
row that is held for too long is put back by a sweep.
-/

namespace VaultTransfers

/-- A reading of the wall clock, in nanoseconds. -/
abbrev Moment := Int

namespace Moment

def ofMillis (n : Nat) : Moment := 1000000 * (n : Int)

end Moment

/-- What a publisher names a row by when it has dealt with it. -/
structure RowRef where
  key : EventKey
  kind : EventKind
deriving DecidableEq, Repr

def VaultEvent.ref (e : VaultEvent) : RowRef :=
  ⟨e.key, e.kind⟩

namespace Outbox

inductive Call where
  /-- Records an event; of one that is recorded already, all but its delivery is renewed. -/
  | record (e : VaultEvent)
  /-- Hands out waiting rows, at most so many. -/
  | claim (limit : Int)
  | markSent (r : RowRef)
  /-- Puts a row back for a later try. -/
  | markFailed (r : RowRef)
  /-- Puts back what has been held for longer than so many milliseconds, and counts it. -/
  | reclaim (olderThan : Nat)
deriving DecidableEq

abbrev Value : Call → Type
  | .record _ | .markSent _ | .markFailed _ => Unit
  | .claim _ => List OutboxEvent
  | .reclaim _ => Nat

def interface : Interface where
  Call := Call
  Reply := fun c => Except StoreFault (Value c)

structure Row extends OutboxEvent where
  /-- Since when a publisher holds the row. -/
  claimedAt : Option Moment
deriving DecidableEq

namespace Row

def hasKey (k : EventKey) (r : Row) : Bool :=
  r.event.key = k

def isUnsent (r : Row) : Bool :=
  r.status = .unsent

def isHeld (r : Row) : Bool :=
  r.status = .processing

/-- Whether the row is the one meant and is held. -/
def isHeldAs (ref : RowRef) (r : Row) : Bool :=
  r.event.ref = ref && r.isHeld

def isStale (limit : Moment) (r : Row) : Bool :=
  r.isHeld && r.claimedAt.any (· < limit)

def hold (now : Moment) (r : Row) : Row :=
  { r with status := .processing, claimedAt := some now }

def letGo (status : OutboxStatus) (r : Row) : Row :=
  { r with status, claimedAt := none }

end Row

end Outbox

/-- The rows in the order of their recording. -/
structure Outbox where
  rows : List Outbox.Row

namespace Outbox

def empty : Outbox := ⟨[]⟩

/-- The time of recording of the row behind `count` others: each row is a millisecond younger. -/
def recordedAt (count : Nat) : Instant :=
  .ofUnixMillis (1700000000000 + (count + 1 : Nat))

def record (e : VaultEvent) (box : Outbox) : Outbox :=
  ⟨Store.changeOrAdd (Row.hasKey e.key) (fun r => { r with event := e })
    { event := e, status := .unsent, createdAt := recordedAt box.rows.length, claimedAt := none }
    box.rows⟩

/-- Whether a publisher holds a row of the wallet. -/
def holds (box : Outbox) (wallet : String) : Bool :=
  box.rows.any fun r => r.isHeld && r.event.wallet = wallet

def isClaimable (box : Outbox) (r : Row) : Bool :=
  r.isUnsent && !box.holds r.event.wallet

/-- What a claim takes: the first rows, in the order of discovery, of the wallets that nobody
holds. -/
def claimed (limit : Int) (box : Outbox) : List OutboxEvent :=
  (OutboxEvent.inOrder ((box.rows.filter box.isClaimable).map Row.toOutboxEvent)).take limit.toNat

def claim (limit : Int) (now : Moment) (box : Outbox) : List OutboxEvent × Outbox :=
  let taken := box.claimed limit
  let isTaken (r : Row) := taken.any fun t => t.event.key = r.event.key
  (taken.map fun t => { t with status := .processing },
    ⟨box.rows.map fun r => if isTaken r then r.hold now else r⟩)

/-- Lets a held row go into a new status. -/
def release (ref : RowRef) (status : OutboxStatus) (box : Outbox) : Outbox :=
  ⟨Store.changeFirst (Row.isHeldAs ref) (Row.letGo status) box.rows⟩

/-- Puts back the rows that have been held since before `limit`. -/
def sweep (limit : Moment) (box : Outbox) : Outbox :=
  ⟨box.rows.map fun r => if r.isStale limit then r.letGo .unsent else r⟩

/-- The outbox kept in memory. -/
def answer (now : Moment) : (c : Call) → StateM Outbox (interface.Reply c)
  | .record e => fun box => (.ok (), box.record e)
  | .claim limit => fun box => ((box.claim limit now).map .ok id)
  | .markSent ref => fun box => (.ok (), box.release ref .sent)
  | .markFailed ref => fun box => (.ok (), box.release ref .unsent)
  | .reclaim olderThan => fun box =>
    let limit := now - .ofMillis olderThan
    (.ok (box.rows.countP (Row.isStale limit)), box.sweep limit)

end Outbox

end VaultTransfers
