import VaultTransfers.Asset
import VaultTransfers.Powers
import VaultTransfers.Text.Blank
import VaultTransfers.Text.Integer
import VaultTransfers.Text.Utf8
import VaultTransfers.Transfer.Resolution

/-!
The settings of the pipeline, read from environment variables. Two variables
are required; every other one has a default. A variable that is set has to be
valid, and the first one that is not is reported.
-/

namespace VaultTransfers

/-- Durations are whole seconds. -/
structure Settings where
  rpcUrl : String
  databaseUrl : String
  brokers : String
  topic : String
  groupId : String
  chainId : Int
  finalityOffset : UInt64
  chunkSize : UInt64
  startBlock : UInt64
  scanInterval : UInt64
  publishInterval : UInt64
  publishBatchSize : Int
  outboxReclaimAfter : UInt64
  rpcTimeout : UInt64
  rpcRateLimit : UInt32
  dbTimeout : UInt64
  busTimeout : UInt64
  monitoredCacheTtl : UInt64
  contracts : Contracts
  serverHost : String
  serverPort : UInt16
deriving DecidableEq, Repr

/-- Why settings are refused. -/
inductive SettingsFault where
  | missing (name : String)
  | invalid (name value : String)
deriving DecidableEq, Repr

def SettingsFault.message : SettingsFault → String
  | missing name => "Missing required environment variable: " ++ name
  | invalid name value => "Invalid value for " ++ name ++ ": " ++ value

/-- The bytes of the variables that are set. -/
abbrev Environment := List (String × List UInt8)

namespace Environment

/-- A variable's text; one that is not UTF-8 counts as unset. -/
def text? (env : Environment) (name : String) : Option String :=
  ((env.lookup name).bind Text.ofUtf8?).map String.ofList

def textOr (env : Environment) (name default : String) : String :=
  (env.text? name).getD default

/-- A variable that has to be set to more than blanks; its value keeps them. -/
def required (env : Environment) (name : String) : Except SettingsFault String :=
  match env.text? name with
  | some value => if Text.trim value.toList = [] then .error (.missing name) else .ok value
  | none => .error (.missing name)

/-- A variable read between blanks, or its default when it is unset. -/
def parsed (env : Environment) (name : String) (read : List Char → Option α) (default : α) :
    Except SettingsFault α :=
  match env.text? name with
  | none => .ok default
  | some value =>
    match read (Text.trim value.toList) with
    | some a => .ok a
    | none => .error (.invalid name value)

def count (env : Environment) (name : String) (default : UInt64) : Except SettingsFault UInt64 :=
  env.parsed name (fun cs => (Text.natBelow? (twoTo 64) cs).map UInt64.ofNat) default

def integer (env : Environment) (name : String) (default : Int) : Except SettingsFault Int :=
  env.parsed name Text.int64? default

def address (env : Environment) (name : String) (default : Address) : Except SettingsFault Address :=
  env.parsed name (fun cs => (Address.ofText cs).toOption) default

end Environment

namespace Settings

def ofEnvironment (env : Environment) : Except SettingsFault Settings := do
  let rpcUrl ← env.required "RPC_URL"
  let databaseUrl ← env.required "DATABASE_URL"
  let chunkSize ← env.count "CHUNK_SIZE" 100
  if chunkSize = 0 then throw (.invalid "CHUNK_SIZE" "0")
  let rpcRateLimit ← env.parsed "RPC_RATE_LIMIT"
    (fun cs => (Text.natBelow? (twoTo 32) cs).map UInt32.ofNat) 10
  if rpcRateLimit = 0 then throw (.invalid "RPC_RATE_LIMIT" "0")
  let chainId ← env.integer "CHAIN_ID" 1
  let finalityOffset ← env.count "FINALITY_OFFSET" 32
  let startBlock ← env.count "START_BLOCK" 0
  let scanInterval ← env.count "SCAN_INTERVAL_SECS" 12
  let publishInterval ← env.count "PUBLISH_INTERVAL_SECS" 3
  let publishBatchSize ← env.integer "PUBLISH_BATCH_SIZE" 100
  let outboxReclaimAfter ← env.count "OUTBOX_RECLAIM_AFTER_SECS" 300
  let rpcTimeout ← env.count "RPC_TIMEOUT_SECS" 30
  let dbTimeout ← env.count "DB_TIMEOUT_SECS" 10
  let busTimeout ← env.count "BUS_TIMEOUT_SECS" 10
  let monitoredCacheTtl ← env.count "MONITORED_CACHE_TTL_SECS" 60
  let teller ← env.address "TELLER_ADDRESS" Asset.teller
  let atomicQueue ← env.address "ATOMIC_QUEUE_ADDRESS" Asset.atomicQueue
  let vault ← env.address "VAULT_ADDRESS" Asset.lbtcv.address
  let serverPort ← env.parsed "SERVER_PORT"
    (fun cs => (Text.natBelow? (twoTo 16) cs).map UInt16.ofNat) 8080
  return {
    rpcUrl, databaseUrl, chainId, finalityOffset, chunkSize, startBlock, scanInterval,
    publishInterval, publishBatchSize, outboxReclaimAfter, rpcTimeout, rpcRateLimit, dbTimeout,
    busTimeout, monitoredCacheTtl, serverPort
    brokers := env.textOr "KAFKA_BROKERS" "localhost:9092"
    topic := env.textOr "KAFKA_TOPIC" "vault-transfers"
    groupId := env.textOr "KAFKA_GROUP_ID" "transfer-materializer"
    contracts := ⟨teller, atomicQueue, vault⟩
    serverHost := env.textOr "SERVER_HOST" "0.0.0.0" }

/-- The settings under their names. -/
def toJson (s : Settings) : Json :=
  .ofMembers
    [("rpc_url", .str s.rpcUrl), ("database_url", .str s.databaseUrl),
     ("kafka_brokers", .str s.brokers), ("kafka_topic", .str s.topic),
     ("kafka_group_id", .str s.groupId), ("chain_id", .ofInt s.chainId),
     ("finality_offset", .ofUInt64 s.finalityOffset), ("chunk_size", .ofUInt64 s.chunkSize),
     ("start_block", .ofUInt64 s.startBlock), ("scan_interval", .ofUInt64 s.scanInterval),
     ("publish_interval", .ofUInt64 s.publishInterval),
     ("publish_batch_size", .ofInt s.publishBatchSize),
     ("outbox_reclaim_after", .ofUInt64 s.outboxReclaimAfter),
     ("rpc_timeout", .ofUInt64 s.rpcTimeout), ("rpc_rate_limit", .ofNat s.rpcRateLimit.toNat),
     ("db_timeout", .ofUInt64 s.dbTimeout), ("bus_timeout", .ofUInt64 s.busTimeout),
     ("monitored_cache_ttl", .ofUInt64 s.monitoredCacheTtl),
     ("teller_address", .str s.contracts.teller.checksummed),
     ("atomic_queue_address", .str s.contracts.atomicQueue.checksummed),
     ("vault_address", .str s.contracts.vault.checksummed), ("server_host", .str s.serverHost),
     ("server_port", .ofNat s.serverPort.toNat)]

end Settings

end VaultTransfers
