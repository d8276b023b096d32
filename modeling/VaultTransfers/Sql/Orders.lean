import VaultTransfers.Sql.Statement
import VaultTransfers.Store.OrderTable

/-!
The table of orders in the database. Amounts are numbers there and compare as
numbers; they are read back as text.
-/

namespace VaultTransfers.Sql.Orders

def columns : List Column :=
  [⟨"order_id", .param 1⟩, ⟨"tx_hash", .param 2⟩, ⟨"log_index", .param 3⟩,
   ⟨"block_number", .param 4⟩, ⟨"tx_date", .param 5⟩, ⟨"transfer_type", .param 6⟩,
   ⟨"status", .param 7⟩, ⟨"wallet_address", .param 8⟩, ⟨"amount", .numeric 9⟩,
   ⟨"from_asset", .param 10⟩, ⟨"to_asset", .param 11⟩, ⟨"estimated_amount", .numeric 12⟩,
   ⟨"completion_tx_hash", .param 13⟩, ⟨"completion_log_index", .param 14⟩]

/-- What is renewed of an order that is there already: all but its identity and its key. -/
def renewed : List String :=
  ["block_number", "tx_date", "transfer_type", "status", "wallet_address", "amount", "from_asset",
   "to_asset", "estimated_amount", "completion_tx_hash", "completion_log_index"]

def params (o : Order) : Except StoreFault (List Value) := do
  let completionLogIndex ← optionalBigint o.completionLogIndex
  let logIndex ← bigint o.logIndex
  let blockNumber ← bigint o.blockNumber
  return [.identity o.id, .text o.txHash, logIndex, blockNumber, .ofInstant o.date,
    .text o.direction.text, .text o.status.text, .text o.wallet, .text o.amount, .text o.fromAsset,
    .text o.toAsset, .ofOption .text o.estimate, .ofOption .text o.completionTxHash,
    completionLogIndex]

def upsert (o : Order) : Task Unit := do
  let params ← params o
  let _ ← execute (insertOrRenew "orders" columns ["tx_hash", "log_index"] renewed) params

def updateText : String :=
  "UPDATE orders SET " ++ Column.assignments (columns.drop 1) ++ " WHERE order_id = $1"

def update (o : Order) : Task Unit := do
  let params ← params o
  let _ ← execute updateText params

/-- A row as it comes from the database, before its names and numbers have been looked at. -/
structure Record where
  id : OrderId
  txHash : String
  logIndex : Int
  blockNumber : Int
  date : Instant
  direction : String
  status : String
  wallet : String
  amount : String
  fromAsset : String
  toAsset : String
  estimate : Option String
  completionTxHash : Option String
  completionLogIndex : Option Int

namespace Record

def ofRow (row : Row) : Except DatabaseFault Record := do
  let id ← row.required "order_id" Value.asIdentity
  let txHash ← row.required "tx_hash" Value.asText
  let logIndex ← row.required "log_index" Value.asInteger
  let blockNumber ← row.required "block_number" Value.asInteger
  let date ← row.required "tx_date" Value.asInstant
  let direction ← row.required "transfer_type" Value.asText
  let status ← row.required "status" Value.asText
  let wallet ← row.required "wallet_address" Value.asText
  let amount ← row.required "amount" Value.asText
  let fromAsset ← row.required "from_asset" Value.asText
  let toAsset ← row.required "to_asset" Value.asText
  let estimate ← row.optional "estimated_amount" Value.asText
  let completionTxHash ← row.optional "completion_tx_hash" Value.asText
  let completionLogIndex ← row.optional "completion_log_index" Value.asInteger
  return ⟨id, txHash, logIndex, blockNumber, date, direction, status, wallet, amount, fromAsset,
    toAsset, estimate, completionTxHash, completionLogIndex⟩

def toOrder (r : Record) : Except Corruption Order := do
  let logIndex ← nonnegative r.logIndex
  let blockNumber ← nonnegative r.blockNumber
  let direction ← known (Direction.ofText r.direction)
  let status ← known (OrderStatus.ofText r.status)
  let completionLogIndex ← r.completionLogIndex.mapM nonnegative
  return ⟨r.id, r.txHash, logIndex, blockNumber, r.date, direction, status, r.wallet, r.amount,
    r.fromAsset, r.toAsset, r.estimate, r.completionTxHash, completionLogIndex⟩

end Record

/-- The first order under a condition. -/
def find (condition : String) (params : List Value) : Task (Option Order) := do
  let rows ← fetch
    ("SELECT order_id, tx_hash, log_index, block_number, tx_date, transfer_type, status, "
      ++ "wallet_address, amount::TEXT AS amount, from_asset, to_asset, "
      ++ "estimated_amount::TEXT AS estimated_amount, completion_tx_hash, completion_log_index "
      ++ "FROM orders WHERE " ++ condition ++ " LIMIT 1") params
  match rows with
  | [] => return none
  | row :: _ =>
    let record ← orDatabaseFault (Record.ofRow row)
    return some (← orCorrupt record.toOrder)

def byKey (k : EventKey) : Task (Option Order) := do
  find "tx_hash = $1 AND log_index = $2" [.text k.txHash, ← bigint k.logIndex]

def byCompletion (k : EventKey) : Task (Option Order) := do
  find "completion_tx_hash = $1 AND completion_log_index = $2"
    [.text k.txHash, ← bigint k.logIndex]

def openOf (wallet : String) : Task (Option Order) :=
  find ("wallet_address = $1 AND transfer_type = 'withdrawal' AND status = 'in_progress' "
    ++ "ORDER BY tx_date DESC, block_number DESC, log_index DESC") [.text wallet]

def openOfAmount (wallet amount : String) : Task (Option Order) :=
  find ("wallet_address = $1 AND amount = $2::NUMERIC "
    ++ "AND transfer_type = 'withdrawal' AND status = 'in_progress' "
    ++ "ORDER BY tx_date DESC, block_number DESC, log_index DESC") [.text wallet, .text amount]

def byTransaction (txHash : String) : Task (Option Order) :=
  find ("tx_hash = $1 OR completion_tx_hash = $1 ORDER BY (tx_hash = $1) DESC, log_index")
    [.text txHash]

/-- The table kept in the database. -/
def answer : (c : OrderTable.Call) → Program interface (OrderTable.interface.Reply c)
  | .upsert o => (upsert o).run
  | .update o => (update o).run
  | .byKey k => (byKey k).run
  | .byCompletion k => (byCompletion k).run
  | .openOf wallet => (openOf wallet).run
  | .openOfAmount wallet amount => (openOfAmount wallet amount).run
  | .byTransaction txHash => (byTransaction txHash).run

end VaultTransfers.Sql.Orders
