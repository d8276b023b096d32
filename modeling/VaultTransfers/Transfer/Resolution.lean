import VaultTransfers.Amount
import VaultTransfers.Asset
import VaultTransfers.Node.Log
import VaultTransfers.Transfer.Event

/-!
What a log of the chain means for the vault. A log is told by its first topic,
has to come from the contract that emits such logs, and has three indexed fields
in its topics and the others as words in its data. Some well-formed logs are
passed over; a log of a known kind that is not well formed is a fault.
-/

namespace VaultTransfers

/-- The contracts that are watched, and the token that stands for a share of the vault. -/
structure Contracts where
  teller : Address
  atomicQueue : Address
  vault : Address
deriving DecidableEq, Repr

namespace Contracts

/-- The contracts whose logs are asked for. -/
def emitters (c : Contracts) : List Address :=
  [c.teller, c.atomicQueue]

/-- The contract that emits events of a kind. -/
def emitter (c : Contracts) : EventKind → Address
  | .deposit => c.teller
  | .withdrawalRequested | .withdrawalCompleted => c.atomicQueue

end Contracts

namespace EventKind

/-- The name that the contract gives the event. -/
def eventName : EventKind → String
  | deposit => "Deposit"
  | withdrawalRequested => "AtomicRequestUpdated"
  | withdrawalCompleted => "AtomicRequestFulfilled"

/-- The first topic of the event's logs, the hash of its signature. -/
def topic : EventKind → Word
  | deposit => .ofNat 0xe96d7872363f475d18b2f5390caaa5eaa96b2d38e42c62afe4ac08ebd2b13c3a
  | withdrawalRequested => .ofNat 0x9537495a2390e1a29f5f7e71b8540f5140bba27065f173615b770ad79d2f7960
  | withdrawalCompleted => .ofNat 0xa4e3f90ef19273220b37cbbbcfe402a6eadd9559c54813b9be52ea0c9612d6c9

def ofTopic? (t : Word) : Option EventKind :=
  all.find? (·.topic = t)

/-- The number of words in the data of the event's logs. -/
def dataWords : EventKind → Nat
  | deposit | withdrawalRequested => 4
  | withdrawalCompleted => 3

end EventKind

/-- Why a log of a known kind cannot be decoded. -/
inductive DecodeReason where
  | topicCount
  | dataTooShort
  | dataTooLong
deriving DecidableEq, Repr

def DecodeReason.message : DecodeReason → String
  | topicCount => "topic list length mismatch"
  | dataTooShort => "ABI decoding failed: buffer overrun while deserializing"
  | dataTooLong => "ABI decoding failed: reserialization did not match original"

structure DecodeFault where
  kind : EventKind
  txHash : Word
  logIndex : UInt64
  reason : DecodeReason
deriving DecidableEq, Repr

def DecodeFault.message (f : DecodeFault) : String :=
  "Failed to decode " ++ f.kind.eventName ++ " log " ++ f.txHash.text ++ ":"
    ++ toString f.logIndex.toNat ++ ": " ++ f.reason.message

/-- Why a well-formed log is passed over. -/
inductive SkipReason where
  | unknownTopic
  | unexpectedEmitter
  | unsupportedDepositAsset
  | notVaultWithdrawal
deriving DecidableEq, Repr

/-- A log that concerns the vault, as far as the log alone tells. -/
structure DecodedLog where
  wallet : String
  amount : String
  fromAsset : String
  toAsset : String
  payload : Payload
deriving DecidableEq, Repr

inductive Resolution where
  | event (decoded : DecodedLog)
  | skipped (reason : SkipReason)
deriving DecidableEq, Repr

/-- The words that an event is made of: three topics and the words of its data. -/
structure EventWords where
  first : Word
  second : Word
  third : Word
  data : List Word
deriving DecidableEq, Repr

namespace Log

/-- The data cut into words of 32 bytes. -/
def wordsOfData : (count : Nat) → List UInt8 → List Word
  | 0, _ => []
  | count + 1, bytes => .ofBytes (bytes.take 32) :: wordsOfData count (bytes.drop 32)

/-- The words of a log of a kind. Topics are looked at before the data; those behind the fourth do
not count. -/
def eventWords (kind : EventKind) (log : Log) : Except DecodeReason EventWords :=
  match log.topics with
  | _ :: first :: second :: third :: _ =>
    if log.data.length < 32 * kind.dataWords then .error .dataTooShort
    else if 32 * kind.dataWords < log.data.length then .error .dataTooLong
    else .ok ⟨first, second, third, wordsOfData kind.dataWords log.data⟩
  | _ => .error .topicCount

def numeral (w : Word) : String :=
  String.ofList (Amount.numeral w.toNat)

def formatted (w : Word) (decimals : Nat) : String :=
  String.ofList (Amount.format w.toNat decimals)

/-- A deposit of a registered asset: its nonce, receiver and asset, and four words of data. -/
def ofDeposit (contracts : Contracts) (w : EventWords) : Resolution :=
  let receiver := w.second.address
  let asset := w.third.address
  let word (i : Nat) := w.data.getD i (.ofNat 0)
  match Asset.find? asset with
  | none => .skipped .unsupportedDepositAsset
  | some registered => .event
    { wallet := receiver.checksummed
      amount := formatted (word 0) registered.decimals
      fromAsset := registered.symbol
      toAsset := Asset.displayName contracts.vault
      payload := .deposit
        { nonce := numeral w.first
          receiver := receiver.checksummed
          depositAsset := asset.checksummed
          depositAmount := numeral (word 0)
          shareAmount := numeral (word 1)
          depositTimestamp := numeral (word 2)
          shareLockPeriod := numeral (word 3) } }

/-- A request that offers the vault's shares: the user, both tokens, and four words of data. -/
def ofRequest (contracts : Contracts) (w : EventWords) : Resolution :=
  let user := w.first.address
  let offer := w.second.address
  let want := w.third.address
  let word (i : Nat) := w.data.getD i (.ofNat 0)
  if offer ≠ contracts.vault then .skipped .notVaultWithdrawal
  else .event
    { wallet := user.checksummed
      amount := formatted (word 0) (Asset.decimalsOf offer)
      fromAsset := Asset.displayName offer
      toAsset := Asset.displayName want
      payload := .withdrawalRequested
        { user := user.checksummed
          offerToken := offer.checksummed
          wantToken := want.checksummed
          amount := numeral (word 0)
          deadline := numeral (word 1)
          minPrice := numeral (word 2)
          timestamp := numeral (word 3) } }

/-- A fulfilment, of whichever tokens; what it closes is decided where orders are kept. -/
def ofFulfilment (w : EventWords) : Resolution :=
  let user := w.first.address
  let offer := w.second.address
  let want := w.third.address
  let word (i : Nat) := w.data.getD i (.ofNat 0)
  .event
    { wallet := user.checksummed
      amount := formatted (word 1) (Asset.decimalsOf want)
      fromAsset := Asset.displayName offer
      toAsset := Asset.displayName want
      payload := .withdrawalCompleted
        { user := user.checksummed
          offerToken := offer.checksummed
          wantToken := want.checksummed
          offerAmountSpent := numeral (word 0)
          wantAmountReceived := numeral (word 1)
          timestamp := numeral (word 2) } }

def ofWords (contracts : Contracts) (kind : EventKind) (w : EventWords) : Resolution :=
  match kind with
  | .deposit => ofDeposit contracts w
  | .withdrawalRequested => ofRequest contracts w
  | .withdrawalCompleted => ofFulfilment w

/-- What the log means. The emitter is judged before anything behind the first topic. -/
def resolve (contracts : Contracts) (log : Log) : Except DecodeFault Resolution :=
  match log.topics.head?.bind EventKind.ofTopic? with
  | none => .ok (.skipped .unknownTopic)
  | some kind =>
    if log.address ≠ contracts.emitter kind then .ok (.skipped .unexpectedEmitter)
    else match log.eventWords kind with
      | .ok words => .ok (ofWords contracts kind words)
      | .error reason => .error ⟨kind, log.txHash, log.logIndex, reason⟩

/-- The event of a decoded log at the time of its block. -/
def toEvent (log : Log) (decoded : DecodedLog) (date : Instant) : VaultEvent where
  txHash := log.txHash.text
  logIndex := log.logIndex
  blockNumber := log.blockNumber
  date := date
  wallet := decoded.wallet
  amount := decoded.amount
  fromAsset := decoded.fromAsset
  toAsset := decoded.toAsset
  payload := decoded.payload

end Log

end VaultTransfers
