import VaultTransfers.Node.Value

/-!
What a node tells of the chain: logs, receipts and block headers. Only the
fields that are used are kept.
-/

namespace VaultTransfers

/-- One entry of a block's log. -/
structure Log where
  /-- The contract that emitted it. -/
  address : Address
  topics : List Word
  data : List UInt8
  blockNumber : UInt64
  txHash : Word
  /-- Its place in the block. -/
  logIndex : UInt64
  /-- Whether a reorganisation of the chain took it back. -/
  removed : Bool
deriving DecidableEq, Repr

namespace Log

inductive Field where
  | address
  | topics
  | data
  | blockNumber
  | txHash
  | logIndex
  | removed
deriving DecidableEq, Repr

def Field.name : Field → String
  | address => "address"
  | topics => "topics"
  | data => "data"
  | blockNumber => "blockNumber"
  | txHash => "transactionHash"
  | logIndex => "logIndex"
  | removed => "removed"

abbrev Field.Value : Field → Type
  | address => Address
  | topics => List Word
  | data => List UInt8
  | blockNumber | logIndex => UInt64
  | txHash => Word
  | removed => Bool

/-- A log that does not say so has not been taken back. -/
def Field.absent : (f : Field) → Option f.Value
  | removed => some false
  | address | topics | data | blockNumber | txHash | logIndex => none

def layout : Json.Layout where
  title := "LogEntry"
  Field := Field
  Value := Field.Value
  decEq := inferInstance
  name := Field.name
  all := [.address, .topics, .data, .blockNumber, .txHash, .logIndex, .removed]
  absent := Field.absent
  absentItem := Field.absent

def decodeField : (f : Field) → Json → Except Json.ShapeFault f.Value
  | .address => Node.address
  | .topics => Node.words
  | .data => Node.bytes
  | .blockNumber | .logIndex => Node.hexCount
  | .txHash => Node.word
  | .removed => Node.bool

def ofDraft (d : layout.Draft) : Except Json.ShapeFault Log := do
  let address ← layout.require d Field.address
  let topics ← layout.require d Field.topics
  let data ← layout.require d Field.data
  let blockNumber ← layout.require d Field.blockNumber
  let txHash ← layout.require d Field.txHash
  let logIndex ← layout.require d Field.logIndex
  let removed ← layout.require d Field.removed
  .ok ⟨address, topics, data, blockNumber, txHash, logIndex, removed⟩

def ofJson (j : Json) : Except Json.ShapeFault Log :=
  layout.decodeRecord decodeField ofDraft j

/-- The entries of a list, up to the first that is none. -/
def listOfJson : Json → Except Json.ShapeFault (List Log)
  | .arr items => items.mapM ofJson
  | j => .error (.invalidType (Json.shown j) .sequence)

end Log

/-- How a transaction ended. Receipts of early blocks have no status. -/
structure Receipt where
  status : Option UInt64
deriving DecidableEq, Repr

namespace Receipt

def succeeded (r : Receipt) : Bool :=
  r.status = some 1

def layout : Json.Layout where
  title := "TransactionReceipt"
  Field := Unit
  Value := fun _ => Option UInt64
  decEq := inferInstance
  name := fun _ => "status"
  all := [()]
  absent := fun _ => some none
  absentItem := fun _ => some none

def decodeStatus : Json → Except Json.ShapeFault (Option UInt64)
  | .null => .ok none
  | j => (Node.quantity j).map some

def ofDraft (d : layout.Draft) : Except Json.ShapeFault Receipt := do
  let status ← layout.require d ()
  .ok ⟨status⟩

def ofJson (j : Json) : Except Json.ShapeFault Receipt :=
  layout.decodeRecord (fun _ => decodeStatus) ofDraft j

end Receipt

structure BlockHeader where
  number : UInt64
  timestamp : UInt64
deriving DecidableEq, Repr

namespace BlockHeader

def layout : Json.Layout where
  title := "BlockHeader"
  Field := String
  Value := fun _ => UInt64
  decEq := inferInstance
  name := id
  all := ["number", "timestamp"]
  absent := fun _ => none
  absentItem := fun _ => none

def ofDraft (d : layout.Draft) : Except Json.ShapeFault BlockHeader := do
  let number ← layout.require d "number"
  let timestamp ← layout.require d "timestamp"
  .ok ⟨number, timestamp⟩

def ofJson (j : Json) : Except Json.ShapeFault BlockHeader :=
  layout.decodeRecord (fun _ => Node.hexCount) ofDraft j

end BlockHeader

end VaultTransfers
