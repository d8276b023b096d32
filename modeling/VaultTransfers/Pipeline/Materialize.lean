import VaultTransfers.Amount
import VaultTransfers.Bus
import VaultTransfers.Store.OrderTable
import VaultTransfers.Transfer.Message

/-!
The materializer: from messages to orders. A deposit is recorded as one order. A
request opens a withdrawal, or revises the one that is open; a fulfilment closes
the open withdrawal, or is recorded as an order of its own. What has been dealt
with once is passed over when it comes again.
-/

namespace VaultTransfers.Materialize

/-- What a message did to the table of orders. -/
inductive Applied where
  | depositRecorded
  | requestOpened
  | requestRevised
  /-- The request is completed already, or older than the open one. -/
  | requestIgnored
  | withdrawalCompleted
  /-- There was no open request to complete. -/
  | completionRecorded
  | completionIgnored
deriving DecidableEq, Repr

inductive Fault where
  | store (fault : StoreFault)
  | malformed (fault : Json.ReadFault)
  | amount (key : EventKey) (fault : Amount.Fault)
deriving DecidableEq, Repr

/-- The place in a malformed text is not told, only what is wrong with its shape. -/
def Fault.message : Fault → String
  | store fault => "Store error: " ++ fault.message
  | malformed (.shape fault) => "Malformed message: " ++ fault.message
  | malformed .ended => "Malformed message: unexpected end"
  | malformed .malformed => "Malformed message: not JSON"
  | amount key fault => "Invalid amount in " ++ key.txHash ++ ":" ++ toString key.logIndex.toNat
      ++ ": " ++ fault.message

abbrev Task := ExceptT Fault (Program OrderTable.interface)

/-- Asks the table of orders. -/
def ask (c : OrderTable.Call) : Task (OrderTable.Value c) := do
  match ← ExceptT.lift (Program.perform (I := OrderTable.interface) c) with
  | .ok a => return a
  | .error fault => throw (.store fault)

/-- The order of a message. -/
def orderOf (id : OrderId) (m : Message) (direction : Direction) (status : OrderStatus)
    (estimate : Option String) : Order where
  id := id
  txHash := m.txHash
  logIndex := m.logIndex
  blockNumber := m.blockNumber
  date := m.date
  direction := direction
  status := status
  wallet := m.wallet
  amount := m.amount
  fromAsset := m.fromAsset
  toAsset := m.toAsset
  estimate := estimate
  completionTxHash := none
  completionLogIndex := none

/-- An open withdrawal under a newer request. -/
def revised (o : Order) (m : Message) (estimate : Option String) : Order :=
  { o with
    txHash := m.txHash
    logIndex := m.logIndex
    blockNumber := m.blockNumber
    date := m.date
    amount := m.amount
    fromAsset := m.fromAsset
    toAsset := m.toAsset
    estimate := estimate }

/-- An open withdrawal closed by a fulfilment, whose amount stands in for a missing estimate. -/
def closed (o : Order) (m : Message) : Order :=
  { o with
    status := .completed
    estimate := some (o.estimate.getD m.amount)
    completionTxHash := some m.txHash
    completionLogIndex := some m.logIndex }

def applyDeposit (fresh : OrderId) (m : Message) : Task Applied := do
  ask (.upsert (orderOf fresh m .deposit .completed none))
  return .depositRecorded

/-- The wallet's open withdrawal: one of the same amount, or else the latest. -/
def openFor (m : Message) : Task (Option Order) := do
  match ← ask (.openOfAmount m.wallet m.amount) with
  | some o => return some o
  | none => ask (.openOf m.wallet)

def applyRequest (fresh : OrderId) (m : Message) (request : WithdrawalRequest) : Task Applied := do
  match Amount.estimate m.amount request.minPrice with
  | .error fault => throw (.amount m.key fault)
  | .ok estimate =>
    match ← ask (.byKey m.key) with
    | some known =>
      if known.status = .completed then return .requestIgnored
      else
        ask (.update (revised known m estimate))
        return .requestRevised
    | none =>
      match ← openFor m with
      | some o =>
        if m.position.before o.position then return .requestIgnored
        else
          ask (.update (revised o m estimate))
          return .requestRevised
      | none =>
        ask (.upsert (orderOf fresh m .withdrawal .inProgress estimate))
        return .requestOpened

/-- Whether a fulfilment has been dealt with, as a completion or as an order of its own. -/
def isDealtWith (m : Message) : Task Bool := do
  if (← ask (.byCompletion m.key)).isSome then return true
  return (← ask (.byKey m.key)).isSome

def applyFulfilment (fresh : OrderId) (m : Message) : Task Applied := do
  if ← isDealtWith m then return .completionIgnored
  match ← ask (.openOf m.wallet) with
  | some o =>
    ask (.update (closed o m))
    return .withdrawalCompleted
  | none =>
    ask (.upsert (closed (orderOf fresh m .withdrawal .completed none) m))
    return .completionRecorded

/-- Applies a message to the table of orders; `fresh` is the identity of the order that it may
make. -/
def apply (fresh : OrderId) (m : Message) : Task Applied :=
  match m.payload with
  | .error fault => throw (.malformed (.shape fault))
  | .ok (.deposit _) => applyDeposit fresh m
  | .ok (.withdrawalRequested request) => applyRequest fresh m request
  | .ok (.withdrawalCompleted _) => applyFulfilment fresh m

/-- Applies what the bytes of a delivery say. -/
def process (fresh : OrderId) (bytes : List UInt8) : Task Applied :=
  match Message.ofBytes bytes with
  | .error fault => throw (.malformed fault)
  | .ok m => apply fresh m

end VaultTransfers.Materialize
