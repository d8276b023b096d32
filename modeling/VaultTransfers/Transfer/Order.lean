import VaultTransfers.Json.Printer
import VaultTransfers.Transfer.Event

/-!
Orders: the steps of deposits and withdrawals that a user sees. A deposit is one
completed order; a withdrawal is open from its request to its fulfilment.
-/

namespace VaultTransfers

/-- An order's own identity, which outlives changes of its key. -/
structure OrderId where
  value : Nat
deriving DecidableEq, Repr

structure Order where
  id : OrderId
  txHash : String
  logIndex : UInt64
  blockNumber : UInt64
  date : Instant
  direction : Direction
  status : OrderStatus
  wallet : String
  amount : String
  fromAsset : String
  toAsset : String
  estimate : Option String
  /-- The fulfilment that closed a withdrawal. -/
  completionTxHash : Option String
  completionLogIndex : Option UInt64
deriving DecidableEq

namespace Order

def key (o : Order) : EventKey :=
  ⟨o.txHash, o.logIndex⟩

def position (o : Order) : Position :=
  ⟨o.blockNumber, o.logIndex⟩

/-- A withdrawal that waits for its fulfilment. -/
def isOpen (o : Order) : Bool :=
  o.direction = .withdrawal && o.status = .inProgress

def isOpenOf (wallet : String) (o : Order) : Bool :=
  o.wallet = wallet && o.isOpen

/-- Whether the fulfilment of the key closed this order. -/
def isCompletedBy (k : EventKey) (o : Order) : Bool :=
  o.completionTxHash = some k.txHash && o.completionLogIndex = some k.logIndex

end Order

namespace OrderId

/-- The identity in groups of 8, 4, 4, 4 and 12 hexadecimal digits. -/
def text (i : OrderId) : String :=
  let digits := Text.hexDigits 32 i.value
  let group (start length : Nat) := (digits.drop start).take length
  String.ofList (group 0 8 ++ '-' :: group 8 4 ++ '-' :: group 12 4 ++ '-' :: group 16 4
    ++ '-' :: group 20 12)

/-- Reads thirty-two hexadecimal digits, with or without the hyphens between their groups. -/
def ofText? (s : String) : Option OrderId :=
  let digits := s.toList.filter (· ≠ '-')
  if digits.length = 32 ∧ digits.all Text.isHexDigit then some ⟨Text.hexNumber digits⟩ else none

end OrderId

namespace Order

/-- An order as users get it. -/
def toJson (o : Order) : Json :=
  .ofMembers
    [("order_id", .str o.id.text), ("tx_hash", .str o.txHash), ("log_index", .ofUInt64 o.logIndex),
     ("block_number", .ofUInt64 o.blockNumber), ("tx_date", .str o.date.toText),
     ("transfer_type", .str o.direction.text), ("status", .str o.status.text),
     ("wallet_address", .str o.wallet), ("amount", .str o.amount), ("from_asset", .str o.fromAsset),
     ("to_asset", .str o.toAsset), ("estimated_amount", .ofOption .str o.estimate),
     ("completion_tx_hash", .ofOption .str o.completionTxHash),
     ("completion_log_index", .ofOption .ofUInt64 o.completionLogIndex)]

end Order

end VaultTransfers
