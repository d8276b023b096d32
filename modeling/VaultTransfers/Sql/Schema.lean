import VaultTransfers.Sql.Statement

/-!
The tables of the database, and the seed of the scan cursor.
-/

namespace VaultTransfers.Sql

/-- Creates the tables and indexes that are missing. -/
def schema : List String :=
  ["CREATE TABLE IF NOT EXISTS monitored_addresses ( id BIGSERIAL PRIMARY KEY, "
    ++ "wallet_address VARCHAR(42) NOT NULL, chain_id BIGINT NOT NULL, "
    ++ "created_at TIMESTAMPTZ NOT NULL DEFAULT NOW(), UNIQUE (wallet_address, chain_id) )",
   "CREATE TABLE IF NOT EXISTS crawler_state ( id INTEGER PRIMARY KEY DEFAULT 1, "
    ++ "last_processed_block BIGINT NOT NULL, updated_at TIMESTAMPTZ NOT NULL DEFAULT NOW(), "
    ++ "CONSTRAINT crawler_state_singleton CHECK (id = 1) )",
   "CREATE TABLE IF NOT EXISTS event_outbox ( tx_hash VARCHAR(66) NOT NULL, "
    ++ "log_index BIGINT NOT NULL, event_type VARCHAR(32) NOT NULL, "
    ++ "status VARCHAR(16) NOT NULL DEFAULT 'unsent' "
    ++ "CHECK (status IN ('unsent', 'processing', 'sent')), block_number BIGINT NOT NULL, "
    ++ "tx_date TIMESTAMPTZ NOT NULL, wallet_address VARCHAR(42) NOT NULL, "
    ++ "event_data JSONB NOT NULL, amount NUMERIC NOT NULL, from_asset VARCHAR(64) NOT NULL, "
    ++ "to_asset VARCHAR(64) NOT NULL, created_at TIMESTAMPTZ NOT NULL DEFAULT clock_timestamp(), "
    ++ "claimed_at TIMESTAMPTZ, PRIMARY KEY (tx_hash, log_index) )",
   "CREATE INDEX IF NOT EXISTS idx_event_outbox_unsent "
    ++ "ON event_outbox (created_at, block_number, log_index) WHERE status = 'unsent'",
   "CREATE INDEX IF NOT EXISTS idx_event_outbox_processing "
    ++ "ON event_outbox (claimed_at) WHERE status = 'processing'",
   "CREATE INDEX IF NOT EXISTS idx_event_outbox_processing_wallet "
    ++ "ON event_outbox (wallet_address) WHERE status = 'processing'",
   "CREATE TABLE IF NOT EXISTS orders ( order_id UUID PRIMARY KEY, tx_hash VARCHAR(66) NOT NULL, "
    ++ "log_index BIGINT NOT NULL, block_number BIGINT NOT NULL, tx_date TIMESTAMPTZ NOT NULL, "
    ++ "transfer_type VARCHAR(16) NOT NULL CHECK (transfer_type IN ('deposit', 'withdrawal')), "
    ++ "status VARCHAR(16) NOT NULL CHECK (status IN ('completed', 'in_progress')), "
    ++ "wallet_address VARCHAR(42) NOT NULL, amount NUMERIC NOT NULL, "
    ++ "from_asset VARCHAR(64) NOT NULL, to_asset VARCHAR(64) NOT NULL, estimated_amount NUMERIC, "
    ++ "completion_tx_hash VARCHAR(66), completion_log_index BIGINT, UNIQUE (tx_hash, log_index) )",
   "CREATE INDEX IF NOT EXISTS idx_orders_wallet_type_status_date "
    ++ "ON orders (wallet_address, transfer_type, status, tx_date DESC)",
   "CREATE INDEX IF NOT EXISTS idx_orders_completion "
    ++ "ON orders (completion_tx_hash, completion_log_index)",
   "CREATE UNIQUE INDEX IF NOT EXISTS idx_orders_one_in_progress_withdrawal "
    ++ "ON orders (wallet_address) WHERE transfer_type = 'withdrawal' AND status = 'in_progress'"]

def executeAll : List String → Task Unit
  | [] => return
  | text :: texts => do
    let _ ← execute text []
    executeAll texts

/-- Creates what is missing. A cursor that is there already stays where it is. -/
def migrate (startBlock : UInt64) : Task Unit := do
  executeAll schema
  let _ ← execute ("INSERT INTO crawler_state (id, last_processed_block) VALUES (1, $1) "
    ++ "ON CONFLICT (id) DO NOTHING") [← bigint startBlock]

/-- What every connection is opened with; the timeout is in seconds. -/
def startupOptions (timeout : UInt64) : String :=
  "-c statement_timeout=" ++ toString (timeout.toNat * 1000)

end VaultTransfers.Sql
