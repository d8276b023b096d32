import VaultTransfers.Http.Api
import VaultTransfers.Pipeline.Consume
import VaultTransfers.Pipeline.Publish
import VaultTransfers.Pipeline.Scan
import VaultTransfers.Session.World

/-!
How the world answers the calls of the pipeline's parts. A trap is looked at
before the operation that it is set on; the bus may also lose the answer to a
message that it has taken.
-/

namespace VaultTransfers.Session

/-- Counts a call down on the traps, and tells the fault that it falls into. -/
def spring (op : Operation) : List Trap → Option Fault × List Trap
  | [] => (none, [])
  | t :: traps =>
    if t.operation = op then
      if 0 < t.skip then (none, { t with skip := t.skip - 1 } :: traps)
      else if 0 < t.count then (some t.fault, { t with count := t.count - 1 } :: traps)
      else (none, t :: traps)
    else
      let (fault, traps) := spring op traps
      (fault, t :: traps)

def trip (op : Operation) : StateM World (Option Fault) := fun w =>
  let (fault, traps) := spring op w.traps
  (fault, { w with traps })

def unlessTrapped (op : Operation) (select : Fault → Option ε) (act : StateM World (Except ε α)) :
    StateM World (Except ε α) := do
  match (← trip op).bind select with
  | some fault => return .error fault
  | none => act

def Fault.toStore? : Fault → Option StoreFault
  | store fault => some fault
  | _ => none

def Fault.toNode? : Fault → Option NodeFault
  | node fault => some fault
  | _ => none

def Fault.toBus? : Fault → Option BusFault
  | bus fault => some fault
  | _ => none

/-- Reads the clock. -/
def now : StateM World Moment := fun w =>
  ((w.readings : Int), { w with readings := w.readings + 1 })

/-- An identity that no order has. -/
def freshId : StateM World OrderId := fun w =>
  (⟨w.identities⟩, { w with identities := w.identities + 1 })

def onWatchList (s : StateM WatchList α) : StateM World α := fun w =>
  let (a, watchList) := s w.watchList
  (a, { w with watchList })

def onCursor (s : StateM Cursor α) : StateM World α := fun w =>
  let (a, cursor) := s w.cursor
  (a, { w with cursor })

def onOutbox (s : StateM Outbox α) : StateM World α := fun w =>
  let (a, outbox) := s w.outbox
  (a, { w with outbox })

def onOrders (s : StateM OrderTable α) : StateM World α := fun w =>
  let (a, orders) := s w.orders
  (a, { w with orders })

def onBus (s : StateM Bus α) : StateM World α := fun w =>
  let (a, bus) := s w.bus
  (a, { w with bus })

def watchListOperation : WatchList.Call → Operation
  | .register _ => .register
  | .contains _ => .isWatched

def isLookup : WatchList.Call → Bool
  | .register _ => false
  | .contains _ => true

def watchList (c : WatchList.Call) : StateM World (WatchList.interface.Reply c) :=
  unlessTrapped (watchListOperation c) Fault.toStore? do
    if isLookup c then modify fun w => { w with lookups := w.lookups + 1 }
    onWatchList (WatchList.answer c)

/-- Another scanner moves the cursor by one block, if it is about to. -/
def interfere (source : UInt64) : StateM World Unit :=
  modify fun w => if w.conflict then { w with conflict := false, cursor := ⟨source + 1⟩ } else w

def cursor : (c : Cursor.Call) → StateM World (Cursor.interface.Reply c)
  | .read => unlessTrapped .readCursor Fault.toStore? (onCursor (Cursor.answer .read))
  | .advance source target =>
    unlessTrapped .advanceCursor Fault.toStore? do
      interfere source
      onCursor (Cursor.answer (.advance source target))

def outboxOperation : Outbox.Call → Operation
  | .record _ => .record
  | .claim _ => .claim
  | .markSent _ => .markSent
  | .markFailed _ => .markFailed
  | .reclaim _ => .reclaim

def outbox (c : Outbox.Call) : StateM World (Outbox.interface.Reply c) :=
  unlessTrapped (outboxOperation c) Fault.toStore? do
    onOutbox (Outbox.answer (← now) c)

def ordersOperation : OrderTable.Call → Operation
  | .upsert _ => .upsertOrder
  | .update _ => .updateOrder
  | .byKey _ => .orderByKey
  | .byCompletion _ => .orderByCompletion
  | .openOf _ => .openOrder
  | .openOfAmount _ _ => .openOrderOfAmount
  | .byTransaction _ => .orderByTransaction

def orders (c : OrderTable.Call) : StateM World (OrderTable.interface.Reply c) :=
  unlessTrapped (ordersOperation c) Fault.toStore? (onOrders (OrderTable.answer c))

def chainOperation : Chain.Call → Operation
  | .latestBlock => .latestBlock
  | .logs _ _ _ _ => .logs
  | .succeeded _ => .succeeded
  | .blockTime _ => .blockTime

def Questions.add (q : Questions) : Chain.Call → Questions
  | .latestBlock => q
  | .logs first last _ _ => { q with ranges := q.ranges ++ [(first, last)] }
  | .succeeded txHash => { q with receipts := q.receipts ++ [txHash] }
  | .blockTime number => { q with blocks := q.blocks ++ [number] }

/-- The chain; a question counts as asked even where it falls into a trap. -/
def chain (c : Chain.Call) : StateM World (Chain.interface.Reply c) := do
  modify fun w => { w with questions := w.questions.add c }
  unlessTrapped (chainOperation c) Fault.toNode? fun w => (w.ledger.answer c, w)

/-- Puts a message on the bus; a failing key is refused. -/
def send (key : String) (payload : List UInt8) : StateM World (Except BusFault Unit) :=
  unlessTrapped .send Fault.toBus? do
    if (← get).failingKeys.contains key then return .error .timedOut
    onBus (modify (Bus.push key payload))
    unlessTrapped .acknowledge Fault.toBus? (return .ok ())

def busOperation : Bus.Call → Operation
  | .next => .next
  | .commit _ => .commit
  | .rewind _ => .rewind

def isRewind : Bus.Call → Bool
  | .rewind _ => true
  | .next | .commit _ => false

def bus (c : Bus.Call) : StateM World (Bus.interface.Reply c) :=
  unlessTrapped (busOperation c) Fault.toBus? do
    if isRewind c then modify fun w => { w with rewinds := w.rewinds + 1 }
    onBus (Bus.answer c)

/-- The scanner's memory lasts if its settings give it any time. -/
def knows (watched : Watched) : StateM World Bool := fun w =>
  (0 < w.settings.monitoredCacheTtl && w.remembered.contains watched, w)

def remember (watched : Watched) : StateM World Unit :=
  modify fun w => { w with remembered := watched :: w.remembered }

def scanner (stopped : Bool) : (c : Scan.Call) → StateM World (Scan.interface.Reply c)
  | .chain c => chain c
  | .watchList c => watchList c
  | .cursor c => cursor c
  | .outbox c => outbox c
  | .knows w => knows w
  | .remember w => remember w
  | .stopRequested => return stopped

def publisher : (c : Publish.Call) → StateM World (Publish.interface.Reply c)
  | .outbox c => outbox c
  | .now => do return .ofUnixMillis (1700000000000 + (← now))
  | .send key payload => send key payload

def consumer : (c : Consume.Call) → StateM World (Consume.interface.Reply c)
  | .bus c => bus c
  | .orders c => orders c

def server : (c : Http.Call) → StateM World (Http.interface.Reply c)
  | .watchList c => watchList c
  | .orders c => orders c

end VaultTransfers.Session
