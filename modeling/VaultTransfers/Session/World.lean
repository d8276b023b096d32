import VaultTransfers.Bus
import VaultTransfers.Node.Chain
import VaultTransfers.Powers
import VaultTransfers.Settings
import VaultTransfers.Store.Cursor
import VaultTransfers.Store.OrderTable
import VaultTransfers.Store.Outbox
import VaultTransfers.Store.WatchList

/-!
A world in memory for the whole pipeline to run in: a chain, the four stores, a
bus, and faults that are set beforehand. Time stands still but for the readings
of the clock, each of which is a nanosecond later than the one before.
-/

namespace VaultTransfers.Session

inductive TxStatus where
  | ok
  | failed
  | missing
deriving DecidableEq, Repr

/-- A chain in memory. -/
structure Ledger where
  latest : UInt64
  logs : List Log
  /-- Whether logs are given out whatever their emitter and topic. -/
  unfiltered : Bool
  statuses : List (Word × TxStatus)
  /-- The seconds of blocks that differ from the rule, or none where the block is unknown. -/
  times : List (UInt64 × Option Int)

namespace Ledger

def ofLatest (latest : UInt64) : Ledger := ⟨latest, [], false, [], []⟩

/-- Every block is twelve seconds younger than the one before it; the count is one of 64 bits. -/
def regularTime (number : UInt64) : Int :=
  Int.bmod (1700000000 + 12 * (number.toNat : Int)) (twoTo 64)

def secondsOf (l : Ledger) (number : UInt64) : Option Int :=
  (l.times.lookup number).getD (some (regularTime number))

def statusOf (l : Ledger) (txHash : Word) : TxStatus :=
  (l.statuses.lookup txHash).getD .ok

/-- Whether a log answers a question for logs. -/
def answers (l : Ledger) (first last : UInt64) (emitters : List Address) (topics : List Word)
    (log : Log) : Bool :=
  first ≤ log.blockNumber && log.blockNumber ≤ last
    && (l.unfiltered || emitters.contains log.address && log.topics.head?.any topics.contains)

/-- What the chain says, read from what it holds. -/
def answer (l : Ledger) : (c : Chain.Call) → Chain.interface.Reply c
  | .latestBlock => .ok l.latest
  | .logs first last emitters topics => .ok (l.logs.filter (l.answers first last emitters topics))
  | .succeeded txHash =>
    match l.statusOf txHash with
    | .ok => .ok true
    | .failed => .ok false
    | .missing => .error (.notFound (.receipt txHash))
  | .blockTime number =>
    match (l.secondsOf number).bind Instant.ofUnix? with
    | some time => .ok time
    | none => .error (.notFound (.block number))

end Ledger

/-- What can be made to fail. -/
inductive Operation where
  | register
  | isWatched
  | readCursor
  | advanceCursor
  | record
  | claim
  | markSent
  | markFailed
  | reclaim
  | upsertOrder
  | updateOrder
  | orderByKey
  | orderByCompletion
  | openOrder
  | openOrderOfAmount
  | orderByTransaction
  | latestBlock
  | logs
  | succeeded
  | blockTime
  | send
  /-- The answer to a message that the bus has taken. -/
  | acknowledge
  | next
  | commit
  | rewind
deriving DecidableEq, Repr

inductive Fault where
  | store (fault : StoreFault)
  | node (fault : NodeFault)
  | bus (fault : BusFault)
deriving DecidableEq, Repr

/-- A fault that lets some calls pass and then fails some. -/
structure Trap where
  operation : Operation
  skip : Nat
  count : Nat
  fault : Fault
deriving DecidableEq, Repr

/-- What the chain has been asked. -/
structure Questions where
  ranges : List (UInt64 × UInt64)
  receipts : List Word
  blocks : List UInt64
deriving DecidableEq, Repr

def Questions.empty : Questions := ⟨[], [], []⟩

structure World where
  settings : Settings
  /-- The consumer's pause in milliseconds. -/
  retryDelay : Nat
  ledger : Ledger
  watchList : WatchList
  /-- How often the watch list has been looked at. -/
  lookups : Nat
  /-- What the scanner remembers. -/
  remembered : List Watched
  cursor : Cursor
  /-- Whether another scanner is about to move the cursor. -/
  conflict : Bool
  outbox : Outbox
  orders : OrderTable
  bus : Bus
  failingKeys : List String
  rewinds : Nat
  /-- How often the clock has been read. -/
  readings : Nat
  /-- How many orders have been given an identity. -/
  identities : Nat
  traps : List Trap
  questions : Questions

namespace World

def start (settings : Settings) (retryDelay : Nat) (latest cursor : UInt64) : World where
  settings := settings
  retryDelay := retryDelay
  ledger := .ofLatest latest
  watchList := .empty
  lookups := 0
  remembered := []
  cursor := ⟨cursor⟩
  conflict := false
  outbox := .empty
  orders := .empty
  bus := .empty
  failingKeys := []
  rewinds := 0
  readings := 0
  identities := 0
  traps := []
  questions := .empty

/-- Sets a trap in place of an earlier one of the operation. -/
def setTrap (t : Trap) (w : World) : World :=
  { w with traps := t :: w.traps.filter (·.operation ≠ t.operation) }

/-- New settings, and a scanner that remembers nothing. -/
def restart (settings : Settings) (retryDelay : Nat) (w : World) : World :=
  { w with settings, retryDelay, remembered := [] }

/-- Holds a row as if a publisher had claimed it some seconds ago and died. -/
def abandon (k : EventKey) (seconds : Nat) (w : World) : World :=
  let since : Moment := (w.readings : Int) - .ofMillis (1000 * seconds)
  { w with
    readings := w.readings + 1
    outbox := ⟨Store.changeFirst (Outbox.Row.hasKey k) (·.hold since) w.outbox.rows⟩ }

end World

end VaultTransfers.Session
