import VaultTransfers.Json.Printer
import VaultTransfers.Transfer.Event

/-!
Messages on the bus. A message is one event with its payload as JSON and the
time of publication; it travels as compact JSON, the fields in a fixed order.
Reading takes the fields in any order and passes over members that it does not
know.
-/

namespace VaultTransfers

structure Message where
  kind : EventKind
  txHash : String
  blockNumber : UInt64
  logIndex : UInt64
  date : Instant
  wallet : String
  eventData : Json
  amount : String
  fromAsset : String
  toAsset : String
  publishedAt : Instant

namespace Message

def key (m : Message) : EventKey :=
  ⟨m.txHash, m.logIndex⟩

def position (m : Message) : Position :=
  ⟨m.blockNumber, m.logIndex⟩

/-- The message that publishes an event. -/
def ofEvent (e : VaultEvent) (publishedAt : Instant) : Message where
  kind := e.kind
  txHash := e.txHash
  blockNumber := e.blockNumber
  logIndex := e.logIndex
  date := e.date
  wallet := e.wallet
  eventData := e.payload.toJson
  amount := e.amount
  fromAsset := e.fromAsset
  toAsset := e.toAsset
  publishedAt := publishedAt

/-- The payload that the event data are under the message's kind. -/
def payload (m : Message) : Except Json.ShapeFault Payload :=
  Payload.ofJson m.kind m.eventData

/-- Messages of one wallet keep their order on the bus. -/
def partitionKey (m : Message) : String :=
  m.wallet

inductive Field where
  | kind
  | txHash
  | blockNumber
  | logIndex
  | date
  | wallet
  | eventData
  | amount
  | fromAsset
  | toAsset
  | publishedAt
deriving DecidableEq, Repr

namespace Field

def all : List Field :=
  [kind, txHash, blockNumber, logIndex, date, wallet, eventData, amount, fromAsset, toAsset,
   publishedAt]

def name : Field → String
  | kind => "event_type"
  | txHash => "tx_hash"
  | blockNumber => "block_number"
  | logIndex => "log_index"
  | date => "tx_date"
  | wallet => "wallet_address"
  | eventData => "event_data"
  | amount => "amount"
  | fromAsset => "from_asset"
  | toAsset => "to_asset"
  | publishedAt => "published_at"

abbrev Value : Field → Type
  | kind => EventKind
  | blockNumber | logIndex => UInt64
  | date | publishedAt => Instant
  | eventData => Json
  | txHash | wallet | amount | fromAsset | toAsset => String

end Field

def fitKind (name : String) : Except Json.ShapeFault EventKind :=
  match EventKind.ofText name with
  | .ok kind => .ok kind
  | .error _ => .error (.unknownVariant name (EventKind.all.map EventKind.text))

def fitKindName : Json.Glimpse → Except Json.ShapeFault EventKind
  | .str name => fitKind name
  | g => .error (.invalidType g .variantName)

def fitUnit : Json.Glimpse → Except Json.ShapeFault Unit
  | .null => .ok ()
  | g => .error (.invalidType g .unit)

/-- A kind is a string, or an object whose one member has the kind for a name and is null. -/
def readKind (depth : Nat) : Json.Reader EventKind := fun input =>
  match Json.skipSpace input with
  | [] => .error .ended
  | s :: rest =>
    if s = some '"' then Json.leaf fitKindName (s :: rest)
    else if s = some '\x7b' ∧ 0 < depth then do
      let (kind, rest) ← Json.leaf fitKindName rest
      let (_, rest) ← Json.leaf fitUnit (← Json.colon rest)
      let rest ← Json.word ['\x7d'] (Json.skipSpace rest)
      .ok (kind, rest)
    else .error .malformed

def readField (depth : Nat) : (f : Field) → Json.Reader f.Value
  | .kind => readKind depth
  | .blockNumber | .logIndex => Json.leaf Json.fitUInt64
  | .date | .publishedAt => Json.leaf Json.fitDate
  | .eventData => Json.value depth
  | .txHash | .wallet | .amount | .fromAsset | .toAsset => Json.leaf Json.fitString

def layout : Json.Layout where
  title := "TransferMessage"
  Field := Field
  Value := Field.Value
  decEq := inferInstance
  name := Field.name
  all := Field.all
  absent := fun _ => none
  absentItem := fun _ => none

def ofDraft (d : layout.Draft) : Except Json.ShapeFault Message := do
  let kind ← layout.require d Field.kind
  let txHash ← layout.require d Field.txHash
  let blockNumber ← layout.require d Field.blockNumber
  let logIndex ← layout.require d Field.logIndex
  let date ← layout.require d Field.date
  let wallet ← layout.require d Field.wallet
  let eventData ← layout.require d Field.eventData
  let amount ← layout.require d Field.amount
  let fromAsset ← layout.require d Field.fromAsset
  let toAsset ← layout.require d Field.toAsset
  let publishedAt ← layout.require d Field.publishedAt
  .ok ⟨kind, txHash, blockNumber, logIndex, date, wallet, eventData, amount, fromAsset, toAsset,
    publishedAt⟩

/-- A message from the bytes of a delivery. -/
def ofBytes (bytes : List UInt8) : Except Json.ReadFault Message :=
  Json.whole (layout.record Json.nestingLimit readField ofDraft) (Text.symbols bytes)

/-- The written form of a field's value. -/
def fieldText (m : Message) : Field → List Char
  | .kind => Json.renderString m.kind.text
  | .txHash => Json.renderString m.txHash
  | .blockNumber => Nat.toDigits 10 m.blockNumber.toNat
  | .logIndex => Nat.toDigits 10 m.logIndex.toNat
  | .date => Json.renderString m.date.toText
  | .wallet => Json.renderString m.wallet
  | .eventData => m.eventData.render
  | .amount => Json.renderString m.amount
  | .fromAsset => Json.renderString m.fromAsset
  | .toAsset => Json.renderString m.toAsset
  | .publishedAt => Json.renderString m.publishedAt.toText

def render (m : Message) : List Char :=
  Json.renderObject (Field.all.map fun f => (f.name, m.fieldText f))

def toText (m : Message) : String :=
  String.ofList m.render

def toBytes (m : Message) : List UInt8 :=
  Text.utf8 m.render

end Message

end VaultTransfers
