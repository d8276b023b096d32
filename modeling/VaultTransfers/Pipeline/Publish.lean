import VaultTransfers.Bus
import VaultTransfers.Settings
import VaultTransfers.Store.Outbox
import VaultTransfers.Transfer.Message

/-!
The publisher: from the outbox to the bus. A batch is claimed, and its rows are
sent one by one; each is marked before the next is sent. When a wallet fails,
its later rows in the batch are put back unsent, so that they stay behind the
failed one. When a mark fails, that row and all behind it are put back.
-/

namespace VaultTransfers.Publish

inductive Call where
  | outbox (c : Outbox.Call)
  | now
  /-- Sends a message, and waits until the bus has it for good. -/
  | send (key : String) (payload : List UInt8)
deriving DecidableEq

abbrev Reply : Call → Type
  | .outbox c => Outbox.interface.Reply c
  | .now => Instant
  | .send _ _ => Except BusFault Unit

def interface : Interface where
  Call := Call
  Reply := Reply

/-- Only the outbox can stop a batch; what the bus refuses is tried again later. -/
abbrev Task := ExceptT StoreFault (Program interface)

def faultMessage (fault : StoreFault) : String :=
  "Store error: " ++ fault.message

def ask (c : Call) : Program interface (Reply c) :=
  Program.perform (I := interface) c

def askOutbox (c : Outbox.Call) : Task (Outbox.Value c) :=
  ExceptT.mk (ask (.outbox c))

/-- How a publisher works: how many rows it claims at once, and after how many milliseconds it
takes a held row for lost. -/
structure Plan where
  batchSize : Int
  reclaimAfter : Nat
deriving DecidableEq, Repr

/-- A batch has at least one row. -/
def Plan.ofSettings (s : Settings) : Plan where
  batchSize := max 1 s.publishBatchSize
  reclaimAfter := s.outboxReclaimAfter.toNat * 1000

/-- What a batch has done. -/
structure Summary where
  reclaimed : Nat
  claimed : Nat
  sent : Nat
  failed : Nat
  /-- Rows put back without a try, behind a failed row of the same wallet. -/
  deferred : Nat
deriving DecidableEq, Repr

/-- The counts so far, and the wallets that have failed in this batch. -/
structure Progress where
  summary : Summary
  halted : List String
deriving DecidableEq, Repr

/-- Puts an event on the bus under its partition key; tells whether the bus took it. -/
def deliver (e : VaultEvent) : Task Bool := do
  let message := Message.ofEvent e (← ask .now)
  let reply ← ask (.send message.partitionKey message.toBytes)
  return reply.toBool

/-- Sends a row, unless its wallet has failed, and marks it. -/
def handle (row : OutboxEvent) (p : Progress) : Task Progress := do
  let e := row.event
  if p.halted.contains e.wallet then
    askOutbox (.markFailed e.ref)
    return { p with summary.deferred := p.summary.deferred + 1 }
  else if ← deliver e then
    askOutbox (.markSent e.ref)
    return { p with summary.sent := p.summary.sent + 1 }
  else
    askOutbox (.markFailed e.ref)
    return { summary := { p.summary with failed := p.summary.failed + 1 }
             halted := e.wallet :: p.halted }

/-- Puts rows back as far as that works; one that is missed here is left to the sweep. -/
def release : List OutboxEvent → Program interface Unit
  | [] => return
  | row :: rows => do
    let _ ← ask (.outbox (.markFailed row.event.ref))
    release rows

def handleAll : List OutboxEvent → Progress → Task Progress
  | [], p => return p
  | row :: rows, p => do
    match ← ExceptT.lift (handle row p).run with
    | .ok p => handleAll rows p
    | .error fault =>
      ExceptT.lift (release (row :: rows))
      throw fault

/-- Sweeps lost rows, then claims a batch and sends it. -/
def batch (plan : Plan) : Task Summary := do
  let reclaimed ← askOutbox (.reclaim plan.reclaimAfter)
  let rows ← askOutbox (.claim plan.batchSize)
  let done ← handleAll rows ⟨⟨reclaimed, rows.length, 0, 0, 0⟩, []⟩
  return done.summary

end VaultTransfers.Publish
