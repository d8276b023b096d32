import VaultTransfers.Sql.Statement
import VaultTransfers.Store.Cursor
import VaultTransfers.Store.WatchList

/-!
The watch list and the scan cursor in the database.
-/

namespace VaultTransfers.Sql

/-- A row of the watch list. -/
structure Registered where
  id : Int
  watched : Watched
  createdAt : Instant
deriving DecidableEq

namespace WatchList

def register (w : Watched) : Task Bool := do
  let affected ← execute
    ("INSERT INTO monitored_addresses (wallet_address, chain_id) VALUES ($1, $2) "
      ++ "ON CONFLICT (wallet_address, chain_id) DO NOTHING") [.text w.wallet, .integer w.chainId]
  return 0 < affected

def contains (w : Watched) : Task Bool := do
  let rows ← fetch "SELECT 1 FROM monitored_addresses WHERE wallet_address = $1 AND chain_id = $2"
    [.text w.wallet, .integer w.chainId]
  return !rows.isEmpty

def registered (row : Row) : Except DatabaseFault Registered := do
  let id ← row.required "id" Value.asInteger
  let wallet ← row.required "wallet_address" Value.asText
  let chainId ← row.required "chain_id" Value.asInteger
  let createdAt ← row.required "created_at" Value.asInstant
  return ⟨id, ⟨wallet, chainId⟩, createdAt⟩

def all (chainId : Int) : Task (List Registered) := do
  let rows ← fetch ("SELECT id, wallet_address, chain_id, created_at FROM monitored_addresses "
    ++ "WHERE chain_id = $1 ORDER BY id") [.integer chainId]
  orDatabaseFault (rows.mapM registered)

/-- The watch list kept in the database. -/
def answer : (c : WatchList.Call) → Program interface (WatchList.interface.Reply c)
  | .register w => (register w).run
  | .contains w => (contains w).run

end WatchList

namespace Cursor

def read : Task UInt64 := do
  match ← fetch "SELECT last_processed_block FROM crawler_state WHERE id = 1" [] with
  | [] => throw (.corrupt .noCursor)
  | row :: _ =>
    let block ← orDatabaseFault (row.required "last_processed_block" Value.asInteger)
    orCorrupt (nonnegative block)

def advance (source target : UInt64) : Task Bool := do
  let affected ← execute
    ("UPDATE crawler_state SET last_processed_block = $2, updated_at = NOW() "
      ++ "WHERE id = 1 AND last_processed_block = $1 AND $2 > $1")
    [← bigint source, ← bigint target]
  return affected = 1

/-- The cursor kept in the database. -/
def answer : (c : Cursor.Call) → Program interface (Cursor.interface.Reply c)
  | .read => read.run
  | .advance source target => (advance source target).run

end Cursor

end VaultTransfers.Sql
