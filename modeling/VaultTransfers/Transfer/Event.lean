import VaultTransfers.Time.Instant
import VaultTransfers.Transfer.Payload

/-!
Vault events and the rows that carry them to the bus. An event is known by the
hash of its transaction and its place in the block; its position in the chain is
the block and that place.
-/

namespace VaultTransfers

/-- What an event is known by. -/
structure EventKey where
  txHash : String
  logIndex : UInt64
deriving DecidableEq, Repr

/-- Where an event stands in the chain. -/
structure Position where
  block : UInt64
  logIndex : UInt64
deriving DecidableEq, Repr

namespace Position

/-- Positions are ordered by block and then by place. -/
def before (p q : Position) : Bool :=
  p.block < q.block || p.block = q.block && p.logIndex < q.logIndex

def notAfter (p q : Position) : Bool :=
  !q.before p

end Position

/-- A vault event of a watched wallet. -/
structure VaultEvent where
  txHash : String
  logIndex : UInt64
  blockNumber : UInt64
  date : Instant
  wallet : String
  /-- In whole tokens. -/
  amount : String
  fromAsset : String
  toAsset : String
  payload : Payload
deriving DecidableEq

namespace VaultEvent

def key (e : VaultEvent) : EventKey :=
  ⟨e.txHash, e.logIndex⟩

def position (e : VaultEvent) : Position :=
  ⟨e.blockNumber, e.logIndex⟩

def kind (e : VaultEvent) : EventKind :=
  e.payload.kind

/-- The fields of an event with their names. -/
def members (e : VaultEvent) : List (String × Json) :=
  [("tx_hash", .str e.txHash), ("log_index", .ofUInt64 e.logIndex),
   ("block_number", .ofUInt64 e.blockNumber), ("tx_date", .str e.date.toText),
   ("wallet_address", .str e.wallet), ("amount", .str e.amount), ("from_asset", .str e.fromAsset),
   ("to_asset", .str e.toAsset), ("event_type", .str e.kind.text), ("event_data", e.payload.toJson)]

def toJson (e : VaultEvent) : Json :=
  .ofMembers e.members

end VaultEvent

/-- An event as a publisher gets it. -/
structure OutboxEvent where
  event : VaultEvent
  status : OutboxStatus
  /-- When the event was first recorded. -/
  createdAt : Instant
deriving DecidableEq

namespace OutboxEvent

/-- The order of discovery: by the time of recording, then by the place in the chain. -/
def foundBefore (a b : OutboxEvent) : Bool :=
  a.createdAt.before b.createdAt
    || a.createdAt = b.createdAt && a.event.position.before b.event.position

/-- Sorts events into the order of discovery. -/
def inOrder (events : List OutboxEvent) : List OutboxEvent :=
  events.mergeSort fun a b => !b.foundBefore a

end OutboxEvent

end VaultTransfers
