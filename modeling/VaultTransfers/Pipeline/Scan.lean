import VaultTransfers.Node.Chain
import VaultTransfers.Settings
import VaultTransfers.Store.Cursor
import VaultTransfers.Store.Outbox
import VaultTransfers.Store.WatchList

/-!
The scanner: from the logs of finalized blocks to recorded events. A tick walks
from the cursor to the last finalized block in chunks; the events of a chunk are
recorded before the cursor is moved over it, so that a block is never behind the
cursor without its events. A tick ends early when it is stopped or when the
cursor turns out to have been moved by another scanner.
-/

namespace VaultTransfers

namespace Log

def position (log : Log) : Position :=
  ⟨log.blockNumber, log.logIndex⟩

/-- Sorts logs into the order of the chain. -/
def inOrder (logs : List Log) : List Log :=
  logs.mergeSort fun a b => a.position.notAfter b.position

end Log

namespace Scan

inductive Call where
  | chain (c : Chain.Call)
  | watchList (c : WatchList.Call)
  | cursor (c : Cursor.Call)
  | outbox (c : Outbox.Call)
  /-- Whether the scanner remembers that a wallet is watched. -/
  | knows (w : Watched)
  | remember (w : Watched)
  | stopRequested
deriving DecidableEq

abbrev Reply : Call → Type
  | .chain c => Chain.interface.Reply c
  | .watchList c => WatchList.interface.Reply c
  | .cursor c => Cursor.interface.Reply c
  | .outbox c => Outbox.interface.Reply c
  | .knows _ | .stopRequested => Bool
  | .remember _ => Unit

def interface : Interface where
  Call := Call
  Reply := Reply

inductive Fault where
  | node (fault : NodeFault)
  | store (fault : StoreFault)
  | decode (fault : DecodeFault)
deriving DecidableEq, Repr

def Fault.message : Fault → String
  | node fault => "RPC error: " ++ fault.message
  | store fault => "Store error: " ++ fault.message
  | decode fault => fault.message

/-- Programs of the scanner. -/
abbrev Task := ExceptT Fault (Program interface)

def ask (c : Call) : Task (Reply c) :=
  ExceptT.lift (Program.perform (I := interface) c)

def orFail (fault : ε → Fault) : Except ε α → Task α
  | .ok a => pure a
  | .error e => throw (fault e)

def askChain (c : Chain.Call) : Task (Chain.Value c) := do
  orFail .node (← ask (.chain c))

def askCursor (c : Cursor.Call) : Task (Cursor.Value c) := do
  orFail .store (← ask (.cursor c))

def askOutbox (c : Outbox.Call) : Task (Outbox.Value c) := do
  orFail .store (← ask (.outbox c))

def askWatchList (c : WatchList.Call) : Task Bool := do
  orFail .store (← ask (.watchList c))

/-- What a scanner looks for, and how far it goes at once. -/
structure Plan where
  contracts : Contracts
  chainId : Int
  /-- How many blocks behind the head count as not yet final. -/
  finalityOffset : UInt64
  chunkSize : UInt64
  chunkSize_pos : 0 < chunkSize

namespace Plan

def ofSettings (s : Settings) : Plan where
  contracts := s.contracts
  chainId := s.chainId
  finalityOffset := s.finalityOffset
  chunkSize := if s.chunkSize = 0 then 1 else s.chunkSize
  chunkSize_pos := by
    split
    · decide
    · rename_i h
      exact UInt64.pos_iff_ne_zero.mpr h

/-- The last block that is final under a head. -/
def safeBlock (p : Plan) (latest : UInt64) : UInt64 :=
  if p.finalityOffset ≤ latest then latest - p.finalityOffset else 0

end Plan

/-- Whether a wallet is watched. What has been seen to be watched is remembered, for the watch
list only grows; what has not is asked anew each time. -/
def isWatched (w : Watched) : Task Bool := do
  if ← ask (.knows w) then return true
  let watched ← askWatchList (.contains w)
  if watched then ask (.remember w)
  return watched

/-- A log that means an event of a watched wallet. -/
structure Candidate where
  log : Log
  decoded : DecodedLog
deriving DecidableEq, Repr

/-- The candidates among the logs. A log that cannot be decoded stops the scan, whoever it is of. -/
def candidates (p : Plan) : List Log → Task (List Candidate)
  | [] => return []
  | log :: logs => do
    match log.resolve p.contracts with
    | .error fault => throw (.decode fault)
    | .ok (.skipped _) => candidates p logs
    | .ok (.event decoded) =>
      if ← isWatched ⟨decoded.wallet, p.chainId⟩ then
        return ⟨log, decoded⟩ :: (← candidates p logs)
      else candidates p logs

/-- Numbers in increasing order, each once. -/
def distinctInOrder (ns : List Nat) : List Nat :=
  (ns.mergeSort (· ≤ ·)).eraseDups

/-- Asks for each key, and pairs it with the answer. -/
def lookUpAll (ask : κ → Task β) : List κ → Task (List (κ × β))
  | [] => return []
  | k :: ks => do
    let b ← ask k
    return (k, b) :: (← lookUpAll ask ks)

/-- Whether the transactions of the candidates succeeded, each asked for once. -/
def outcomes (cs : List Candidate) : Task (List (Word × Bool)) :=
  lookUpAll (fun txHash => askChain (.succeeded txHash))
    ((distinctInOrder (cs.map (·.log.txHash.toNat))).map .ofNat)

/-- The times of the candidates' blocks, each asked for once. -/
def blockTimes (cs : List Candidate) : Task (List (UInt64 × Instant)) :=
  lookUpAll (fun number => askChain (.blockTime number))
    ((distinctInOrder (cs.map (·.log.blockNumber.toNat))).map .ofNat)

/-- The events of candidates whose blocks' times are known. -/
def dated (times : List (UInt64 × Instant)) : List Candidate → Task (List VaultEvent)
  | [] => return []
  | c :: cs => do
    match times.lookup c.log.blockNumber with
    | some date => return c.log.toEvent c.decoded date :: (← dated times cs)
    | none => throw (.node (.notFound (.block c.log.blockNumber)))

/-- The events of a range of blocks, both ends included, in the order of the chain. -/
def resolveRange (p : Plan) (first last : UInt64) : Task (List VaultEvent) := do
  let logs ← askChain (.logs first last p.contracts.emitters (EventKind.all.map EventKind.topic))
  let found ← candidates p (Log.inOrder (logs.filter (!·.removed)))
  let succeeded ← outcomes found
  let kept := found.filter fun c => (succeeded.lookup c.log.txHash).getD false
  dated (← blockTimes kept) kept

def recordAll : List VaultEvent → Task Unit
  | [] => return
  | e :: es => do
    askOutbox (.record e)
    recordAll es

/-- Records the events of a range, and tells how many they are. -/
def scanRange (p : Plan) (first last : UInt64) : Task Nat := do
  let events ← resolveRange p first last
  recordAll events
  return events.length

/-- What a tick has done. -/
structure Summary where
  safeBlock : UInt64
  cursor : UInt64
  chunks : Nat
  recorded : Nat
deriving DecidableEq, Repr

/-- The end of the chunk behind the cursor. -/
def chunkEnd (cursor safe size : UInt64) : UInt64 :=
  if safe - cursor ≤ size then safe else cursor + size

theorem lt_chunkEnd {cursor safe size : UInt64} (h : cursor < safe) (pos : 0 < size) :
    cursor < chunkEnd cursor safe size := by
  unfold chunkEnd
  split
  · exact h
  · rw [UInt64.lt_iff_toNat_lt] at *
    simp only [UInt64.le_iff_toNat_le, UInt64.toNat_sub_of_le safe cursor
      (UInt64.le_of_lt (UInt64.lt_iff_toNat_lt.mpr h))] at *
    have := safe.toNat_lt
    simp only [UInt64.toNat_zero, UInt64.toNat_add] at *
    omega

/-- Scans chunk after chunk from the summary's cursor on. -/
def chunks (p : Plan) (s : Summary) : Task Summary :=
  if h : s.cursor < s.safeBlock then do
    if ← ask .stopRequested then return s
    let target := chunkEnd s.cursor s.safeBlock p.chunkSize
    let recorded ← scanRange p (s.cursor + 1) target
    if ← askCursor (.advance s.cursor target) then
      chunks p { s with
        cursor := target, chunks := s.chunks + 1, recorded := s.recorded + recorded }
    else return s
  else return s
termination_by s.safeBlock.toNat - s.cursor.toNat
decreasing_by
  have below := UInt64.lt_iff_toNat_lt.mp h
  have ahead := UInt64.lt_iff_toNat_lt.mp (lt_chunkEnd h p.chunkSize_pos)
  omega

/-- One tick, from the cursor to the last final block. -/
def tick (p : Plan) : Task Summary := do
  let latest ← askChain .latestBlock
  let cursor ← askCursor .read
  chunks p ⟨p.safeBlock latest, cursor, 0, 0⟩

end Scan

end VaultTransfers
