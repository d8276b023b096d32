import VaultTransfers.Json.Record
import VaultTransfers.Transfer.Kind

/-!
The fields of the three vault events. Numbers are decimal numerals in a token's
smallest unit, addresses are checksummed. The kind of an event is told by its
payload; where payloads are stored, the kind stands beside them.
-/

namespace VaultTransfers

structure Deposit where
  nonce : String
  receiver : String
  depositAsset : String
  depositAmount : String
  shareAmount : String
  depositTimestamp : String
  shareLockPeriod : String
deriving DecidableEq, Repr

structure WithdrawalRequest where
  user : String
  offerToken : String
  wantToken : String
  amount : String
  deadline : String
  /-- What one offered token is worth in wanted tokens, with eight decimals. -/
  minPrice : String
  timestamp : String
deriving DecidableEq, Repr

structure Fulfilment where
  user : String
  offerToken : String
  wantToken : String
  offerAmountSpent : String
  wantAmountReceived : String
  timestamp : String
deriving DecidableEq, Repr

inductive Payload where
  | deposit (fields : Deposit)
  | withdrawalRequested (fields : WithdrawalRequest)
  | withdrawalCompleted (fields : Fulfilment)
deriving DecidableEq, Repr

namespace Json

/-- The layout of a record whose fields are all strings and all required. -/
def textLayout (title : String) (names : List String) : Layout where
  title := title
  Field := String
  Value := fun _ => String
  decEq := inferInstance
  name := id
  all := names
  absent := fun _ => none
  absentItem := fun _ => none

end Json

namespace Deposit

def layout : Json.Layout :=
  Json.textLayout "DepositPayload"
    ["nonce", "receiver", "deposit_asset", "deposit_amount", "share_amount", "deposit_timestamp",
     "share_lock_period_at_time_of_deposit"]

def ofDraft (d : layout.Draft) : Except Json.ShapeFault Deposit := do
  let nonce ← layout.require d "nonce"
  let receiver ← layout.require d "receiver"
  let depositAsset ← layout.require d "deposit_asset"
  let depositAmount ← layout.require d "deposit_amount"
  let shareAmount ← layout.require d "share_amount"
  let depositTimestamp ← layout.require d "deposit_timestamp"
  let shareLockPeriod ← layout.require d "share_lock_period_at_time_of_deposit"
  .ok ⟨nonce, receiver, depositAsset, depositAmount, shareAmount, depositTimestamp, shareLockPeriod⟩

def toJson (p : Deposit) : Json :=
  .ofMembers
    [("nonce", .str p.nonce), ("receiver", .str p.receiver), ("deposit_asset", .str p.depositAsset),
     ("deposit_amount", .str p.depositAmount), ("share_amount", .str p.shareAmount),
     ("deposit_timestamp", .str p.depositTimestamp),
     ("share_lock_period_at_time_of_deposit", .str p.shareLockPeriod)]

end Deposit

namespace WithdrawalRequest

def layout : Json.Layout :=
  Json.textLayout "WithdrawalRequestPayload"
    ["user", "offer_token", "want_token", "amount", "deadline", "min_price", "timestamp"]

def ofDraft (d : layout.Draft) : Except Json.ShapeFault WithdrawalRequest := do
  let user ← layout.require d "user"
  let offerToken ← layout.require d "offer_token"
  let wantToken ← layout.require d "want_token"
  let amount ← layout.require d "amount"
  let deadline ← layout.require d "deadline"
  let minPrice ← layout.require d "min_price"
  let timestamp ← layout.require d "timestamp"
  .ok ⟨user, offerToken, wantToken, amount, deadline, minPrice, timestamp⟩

def toJson (p : WithdrawalRequest) : Json :=
  .ofMembers
    [("user", .str p.user), ("offer_token", .str p.offerToken), ("want_token", .str p.wantToken),
     ("amount", .str p.amount), ("deadline", .str p.deadline), ("min_price", .str p.minPrice),
     ("timestamp", .str p.timestamp)]

end WithdrawalRequest

namespace Fulfilment

def layout : Json.Layout :=
  Json.textLayout "WithdrawalFulfilledPayload"
    ["user", "offer_token", "want_token", "offer_amount_spent", "want_amount_received", "timestamp"]

def ofDraft (d : layout.Draft) : Except Json.ShapeFault Fulfilment := do
  let user ← layout.require d "user"
  let offerToken ← layout.require d "offer_token"
  let wantToken ← layout.require d "want_token"
  let offerAmountSpent ← layout.require d "offer_amount_spent"
  let wantAmountReceived ← layout.require d "want_amount_received"
  let timestamp ← layout.require d "timestamp"
  .ok ⟨user, offerToken, wantToken, offerAmountSpent, wantAmountReceived, timestamp⟩

def toJson (p : Fulfilment) : Json :=
  .ofMembers
    [("user", .str p.user), ("offer_token", .str p.offerToken), ("want_token", .str p.wantToken),
     ("offer_amount_spent", .str p.offerAmountSpent),
     ("want_amount_received", .str p.wantAmountReceived), ("timestamp", .str p.timestamp)]

end Fulfilment

namespace Payload

def kind : Payload → EventKind
  | deposit _ => .deposit
  | withdrawalRequested _ => .withdrawalRequested
  | withdrawalCompleted _ => .withdrawalCompleted

def toJson : Payload → Json
  | deposit p => p.toJson
  | withdrawalRequested p => p.toJson
  | withdrawalCompleted p => p.toJson

def text (_name : String) (j : Json) : Except Json.ShapeFault String :=
  Json.fitString (Json.shown j)

/-- Reads the payload of an event of the given kind. -/
def ofJson (kind : EventKind) (j : Json) : Except Json.ShapeFault Payload :=
  match kind with
  | .deposit => (Deposit.layout.decodeRecord text Deposit.ofDraft j).map .deposit
  | .withdrawalRequested =>
    (WithdrawalRequest.layout.decodeRecord text WithdrawalRequest.ofDraft j).map .withdrawalRequested
  | .withdrawalCompleted =>
    (Fulfilment.layout.decodeRecord text Fulfilment.ofDraft j).map .withdrawalCompleted

end Payload

end VaultTransfers
