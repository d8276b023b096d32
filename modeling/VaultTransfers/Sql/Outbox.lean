import VaultTransfers.Sql.Statement
import VaultTransfers.Store.Outbox

/-!
The outbox in the database. A claim is one transaction under a lock, so that
claimers see each other's rows; what it hands out is put in order afterwards,
for the database promises none.
-/

namespace VaultTransfers.Sql.Outbox

def columns : List Column :=
  [⟨"tx_hash", .param 1⟩, ⟨"log_index", .param 2⟩, ⟨"event_type", .param 3⟩,
   ⟨"status", .literal "unsent"⟩, ⟨"block_number", .param 4⟩, ⟨"tx_date", .param 5⟩,
   ⟨"wallet_address", .param 6⟩, ⟨"event_data", .param 7⟩, ⟨"amount", .numeric 8⟩,
   ⟨"from_asset", .param 9⟩, ⟨"to_asset", .param 10⟩]

/-- What is renewed of an event that is recorded already: all but its key and its delivery. -/
def renewed : List String :=
  ["event_type", "block_number", "tx_date", "wallet_address", "event_data", "amount", "from_asset",
   "to_asset"]

def params (e : VaultEvent) : Except StoreFault (List Value) := do
  let logIndex ← bigint e.logIndex
  let blockNumber ← bigint e.blockNumber
  return [.text e.txHash, logIndex, .text e.kind.text, blockNumber, .ofInstant e.date,
    .text e.wallet, .json e.payload.toJson, .text e.amount, .text e.fromAsset, .text e.toAsset]

def record (e : VaultEvent) : Task Unit := do
  let params ← params e
  let _ ← execute (insertOrRenew "event_outbox" columns ["tx_hash", "log_index"] renewed) params

/-- A row as it comes from the database, before its names and numbers have been looked at. -/
structure Record where
  txHash : String
  logIndex : Int
  kind : String
  status : String
  blockNumber : Int
  date : Instant
  wallet : String
  eventData : Json
  amount : String
  fromAsset : String
  toAsset : String
  createdAt : Instant

namespace Record

def ofRow (row : Row) : Except DatabaseFault Record := do
  let txHash ← row.required "tx_hash" Value.asText
  let logIndex ← row.required "log_index" Value.asInteger
  let kind ← row.required "event_type" Value.asText
  let status ← row.required "status" Value.asText
  let blockNumber ← row.required "block_number" Value.asInteger
  let date ← row.required "tx_date" Value.asInstant
  let wallet ← row.required "wallet_address" Value.asText
  let eventData ← row.required "event_data" Value.asJson
  let amount ← row.required "amount" Value.asText
  let fromAsset ← row.required "from_asset" Value.asText
  let toAsset ← row.required "to_asset" Value.asText
  let createdAt ← row.required "created_at" Value.asInstant
  return ⟨txHash, logIndex, kind, status, blockNumber, date, wallet, eventData, amount, fromAsset,
    toAsset, createdAt⟩

def payload (kind : EventKind) (j : Json) : Except Corruption Payload :=
  match Payload.ofJson kind j with
  | .ok p => .ok p
  | .error fault => .error (.payload fault)

def toEvent (r : Record) : Except Corruption OutboxEvent := do
  let kind ← known (EventKind.ofText r.kind)
  let payload ← payload kind r.eventData
  let logIndex ← nonnegative r.logIndex
  let blockNumber ← nonnegative r.blockNumber
  let status ← known (OutboxStatus.ofText r.status)
  return {
    event := ⟨r.txHash, logIndex, blockNumber, r.date, r.wallet, r.amount, r.fromAsset, r.toAsset,
      payload⟩
    status
    createdAt := r.createdAt }

end Record

/-- What claimers lock. -/
def lockKey : Int := 0x6576656e745f6f62

def claimText : String :=
  "WITH claimable AS ( SELECT e.tx_hash, e.log_index FROM event_outbox e "
    ++ "WHERE e.status = 'unsent' AND NOT EXISTS ( SELECT 1 FROM event_outbox p "
    ++ "WHERE p.wallet_address = e.wallet_address AND p.status = 'processing' ) "
    ++ "ORDER BY e.created_at, e.block_number, e.log_index LIMIT $1 FOR UPDATE OF e SKIP LOCKED ) "
    ++ "UPDATE event_outbox AS o SET status = 'processing', claimed_at = NOW() FROM claimable c "
    ++ "WHERE o.tx_hash = c.tx_hash AND o.log_index = c.log_index "
    ++ "RETURNING o.tx_hash, o.log_index, o.event_type, o.status, o.block_number, o.tx_date, "
    ++ "o.wallet_address, o.event_data, o.amount::TEXT AS amount, o.from_asset, o.to_asset, "
    ++ "o.created_at"

def claim (limit : Int) : Task (List OutboxEvent) := do
  begin
  let _ ← execute "SELECT pg_advisory_xact_lock($1)" [.integer lockKey]
  let rows ← fetch claimText [.integer limit]
  let records ← orDatabaseFault (rows.mapM Record.ofRow)
  commit
  let events ← orCorrupt (records.mapM Record.toEvent)
  return OutboxEvent.inOrder events

def release (r : RowRef) (status : OutboxStatus) : Task Unit := do
  let _ ← execute
    ("UPDATE event_outbox SET status = $4, claimed_at = NULL "
      ++ "WHERE tx_hash = $1 AND event_type = $2 AND log_index = $3 AND status = 'processing'")
    [.text r.key.txHash, .text r.kind.text, ← bigint r.key.logIndex, .text status.text]

/-- Milliseconds as seconds: whole seconds and the rest are rounded each, and then their sum. -/
def secondsOf (millis : Nat) : Option Binary64 := do
  let whole ← Binary64.nearest? false (millis / 1000) 1
  let rest ← Binary64.nearest? false (millis % 1000) 1000
  whole.sum? rest

def reclaim (olderThan : Nat) : Task Nat :=
  execute
    ("UPDATE event_outbox SET status = 'unsent', claimed_at = NULL "
      ++ "WHERE status = 'processing' AND claimed_at < NOW() - make_interval(secs => $1)")
    [.ofOption .seconds (secondsOf olderThan)]

/-- The first column of a row, whatever its name. -/
def firstText : Row → Except DatabaseFault String
  | (_, .text s) :: _ => .ok s
  | (_, .null) :: _ => .error (.nullColumn "0")
  | _ => .error (.wrongType "0")

/-- How far the delivery of an event has come, if it has been recorded. -/
def status (k : EventKey) : Task (Option OutboxStatus) := do
  let logIndex ← bigint k.logIndex
  match ← fetch "SELECT status FROM event_outbox WHERE tx_hash = $1 AND log_index = $2"
    [.text k.txHash, logIndex] with
  | [] => return none
  | row :: _ =>
    let text ← orDatabaseFault (firstText row)
    return some (← orCorrupt (known (OutboxStatus.ofText text)))

/-- The outbox kept in the database. -/
def answer : (c : Outbox.Call) → Program interface (Outbox.interface.Reply c)
  | .record e => (record e).run
  | .claim limit => (claim limit).run
  | .markSent r => (release r .sent).run
  | .markFailed r => (release r .unsent).run
  | .reclaim olderThan => (reclaim olderThan).run

end VaultTransfers.Sql.Outbox
