import VaultTransfers.Program

/-!
The bus: one ordered log of messages with the position of its consumer and the
offset that the consumer has committed. A message that was not dealt with is
read again after a rewind; after a loss of the position, reading goes on from
the committed offset.
-/

namespace VaultTransfers

/-- A message as it is read from the bus. -/
structure Delivery where
  offset : Nat
  key : String
  payload : List UInt8
deriving DecidableEq, Repr

inductive BusFault where
  | closed
  | timedOut
deriving DecidableEq, Repr

structure Bus where
  log : List Delivery
  /-- The offset of the message that is read next. -/
  position : Nat
  committed : Nat
deriving DecidableEq, Repr

namespace Bus

/-- What a consumer asks of the bus. -/
inductive Call where
  | next
  /-- Records that the group has dealt with the message and all before it. -/
  | commit (d : Delivery)
  /-- Makes the message the next to be read. -/
  | rewind (d : Delivery)
deriving DecidableEq

abbrev Value : Call → Type
  | .next => Delivery
  | .commit _ | .rewind _ => Unit

def interface : Interface where
  Call := Call
  Reply := fun c => Except BusFault (Value c)

def empty : Bus := ⟨[], 0, 0⟩

def push (key : String) (payload : List UInt8) (bus : Bus) : Bus :=
  { bus with log := bus.log ++ [⟨bus.log.length, key, payload⟩] }

/-- The messages that have not been read. -/
def unread (bus : Bus) : Nat :=
  bus.log.length - bus.position

/-- Appends a copy of every message. -/
def redeliver (bus : Bus) : Bus :=
  bus.log.foldl (fun b d => b.push d.key d.payload) bus

/-- The bus kept in memory; it is closed to a reader who has read it all. -/
def answer : (c : Call) → StateM Bus (interface.Reply c)
  | .next => fun bus =>
    match bus.log[bus.position]? with
    | some d => (.ok d, { bus with position := bus.position + 1 })
    | none => (.error .closed, bus)
  | .commit d => fun bus => (.ok (), { bus with committed := d.offset + 1 })
  | .rewind d => fun bus => (.ok (), { bus with position := d.offset })

end Bus

end VaultTransfers
