import VaultTransfers.Pipeline.Scan
import VaultTransfers.Proofs.Settings.Variables

/-!
Settings that are accepted, and whether the pipeline can run on them. The settings
tell what the variables hold; they are refused for the first variable, in the order
of reading, that does not hold what it has to. Accepted settings have what the
scanner, the publisher and the interface need of them if no interval is set to zero
and the chain is not set to a number that is not positive, which nothing checks.
-/

namespace VaultTransfers

namespace Settings

/-- The variables that are checked, in the order in which they are read. -/
def checks : List Variable :=
  [⟨"RPC_URL", .filled⟩, ⟨"DATABASE_URL", .filled⟩, ⟨"CHUNK_SIZE", .count 1 (twoTo 64)⟩,
   ⟨"RPC_RATE_LIMIT", .count 1 (twoTo 32)⟩, ⟨"CHAIN_ID", .integer⟩,
   ⟨"FINALITY_OFFSET", .count 0 (twoTo 64)⟩, ⟨"START_BLOCK", .count 0 (twoTo 64)⟩,
   ⟨"SCAN_INTERVAL_SECS", .count 0 (twoTo 64)⟩, ⟨"PUBLISH_INTERVAL_SECS", .count 0 (twoTo 64)⟩,
   ⟨"PUBLISH_BATCH_SIZE", .integer⟩, ⟨"OUTBOX_RECLAIM_AFTER_SECS", .count 0 (twoTo 64)⟩,
   ⟨"RPC_TIMEOUT_SECS", .count 0 (twoTo 64)⟩, ⟨"DB_TIMEOUT_SECS", .count 0 (twoTo 64)⟩,
   ⟨"BUS_TIMEOUT_SECS", .count 0 (twoTo 64)⟩, ⟨"MONITORED_CACHE_TTL_SECS", .count 0 (twoTo 64)⟩,
   ⟨"TELLER_ADDRESS", .address⟩, ⟨"ATOMIC_QUEUE_ADDRESS", .address⟩, ⟨"VAULT_ADDRESS", .address⟩,
   ⟨"SERVER_PORT", .count 0 (twoTo 16)⟩]

/-- What the variables tell of the settings. Texts without a demand are as they are set. -/
structure Told (env : Environment) (s : Settings) : Prop where
  rpcUrl : env.text? "RPC_URL" = some s.rpcUrl
  databaseUrl : env.text? "DATABASE_URL" = some s.databaseUrl
  chunkSize : env.Tells "CHUNK_SIZE" (fun cs n => Text.IsCount cs n.toNat) 100 s.chunkSize
  chunkSize_ne : s.chunkSize ≠ 0
  rpcRateLimit : env.Tells "RPC_RATE_LIMIT" (fun cs n => Text.IsCount cs n.toNat) 10 s.rpcRateLimit
  rpcRateLimit_ne : s.rpcRateLimit ≠ 0
  chainId : env.Tells "CHAIN_ID" (fun cs n => Text.IsInteger cs n ∧ Text.InRange n) 1 s.chainId
  finalityOffset : env.Tells "FINALITY_OFFSET" (fun cs n => Text.IsCount cs n.toNat) 32
    s.finalityOffset
  startBlock : env.Tells "START_BLOCK" (fun cs n => Text.IsCount cs n.toNat) 0 s.startBlock
  scanInterval : env.Tells "SCAN_INTERVAL_SECS" (fun cs n => Text.IsCount cs n.toNat) 12
    s.scanInterval
  publishInterval : env.Tells "PUBLISH_INTERVAL_SECS" (fun cs n => Text.IsCount cs n.toNat) 3
    s.publishInterval
  publishBatchSize : env.Tells "PUBLISH_BATCH_SIZE"
    (fun cs n => Text.IsInteger cs n ∧ Text.InRange n) 100 s.publishBatchSize
  outboxReclaimAfter : env.Tells "OUTBOX_RECLAIM_AFTER_SECS" (fun cs n => Text.IsCount cs n.toNat)
    300 s.outboxReclaimAfter
  rpcTimeout : env.Tells "RPC_TIMEOUT_SECS" (fun cs n => Text.IsCount cs n.toNat) 30 s.rpcTimeout
  dbTimeout : env.Tells "DB_TIMEOUT_SECS" (fun cs n => Text.IsCount cs n.toNat) 10 s.dbTimeout
  busTimeout : env.Tells "BUS_TIMEOUT_SECS" (fun cs n => Text.IsCount cs n.toNat) 10 s.busTimeout
  monitoredCacheTtl : env.Tells "MONITORED_CACHE_TTL_SECS" (fun cs n => Text.IsCount cs n.toNat) 60
    s.monitoredCacheTtl
  teller : env.Tells "TELLER_ADDRESS" Text.IsAddress Asset.teller s.contracts.teller
  atomicQueue : env.Tells "ATOMIC_QUEUE_ADDRESS" Text.IsAddress Asset.atomicQueue
    s.contracts.atomicQueue
  vault : env.Tells "VAULT_ADDRESS" Text.IsAddress Asset.lbtcv.address s.contracts.vault
  serverPort : env.Tells "SERVER_PORT" (fun cs n => Text.IsCount cs n.toNat) 8080 s.serverPort
  brokers : s.brokers = (env.text? "KAFKA_BROKERS").getD "localhost:9092"
  topic : s.topic = (env.text? "KAFKA_TOPIC").getD "vault-transfers"
  groupId : s.groupId = (env.text? "KAFKA_GROUP_ID").getD "transfer-materializer"
  serverHost : s.serverHost = (env.text? "SERVER_HOST").getD "0.0.0.0"

/-- Reading variables one after the other: it ends at the first that does not hold what it has to. -/
inductive Walks (env : Environment) (told : α → Prop) :
    List Variable → Except SettingsFault α → Prop
  | done {a : α} (tells : told a) : Walks env told [] (.ok a)
  | met {v : Variable} {vs : List Variable} {x : Except SettingsFault α} (met : v.Met env)
      (rest : Walks env told vs x) : Walks env told (v :: vs) x
  | refused {v : Variable} {vs : List Variable} {fault : SettingsFault} (unmet : ¬ v.Met env)
      (reported : v.Reported env fault) : Walks env told (v :: vs) (.error fault)

section

variable {α β : Type} {env : Environment} {told : α → Prop} {v : Variable} {vs : List Variable}

theorem Walks.bind {x : Except SettingsFault β} {next : β → Except SettingsFault α}
    {tells : β → Prop} (checked : Checked v env tells x)
    (rest : ∀ b, tells b → Walks env told vs (next b)) : Walks env told (v :: vs) (x >>= next) := by
  cases x with
  | error fault =>
      obtain ⟨unmet, reported⟩ := checked.error fault rfl
      exact .refused unmet reported
  | ok b =>
      obtain ⟨met, tells⟩ := checked.ok b rfl
      exact .met met (rest b tells)

theorem Walks.of_ok {a : α} (walks : Walks env told vs (.ok a)) :
    (∀ v ∈ vs, v.Met env) ∧ told a := by
  generalize outcome : (.ok a : Except SettingsFault α) = x at walks
  induction walks with
  | done tells => exact ⟨nofun, Except.ok.inj outcome ▸ tells⟩
  | met met _ ih => exact ⟨List.forall_mem_cons.mpr ⟨met, (ih outcome).1⟩, (ih outcome).2⟩
  | refused => cases outcome

theorem Walks.of_error {fault : SettingsFault} (walks : Walks env told vs (.error fault)) :
    ∃ before v after, vs = before ++ v :: after ∧ (∀ u ∈ before, u.Met env) ∧ ¬ v.Met env ∧
      v.Reported env fault := by
  generalize outcome : (.error fault : Except SettingsFault α) = x at walks
  induction walks with
  | done => cases outcome
  | @met v vs _ met _ ih =>
      obtain ⟨before, u, after, rfl, kept, unmet, reported⟩ := ih outcome
      exact ⟨v :: before, u, after, rfl, List.forall_mem_cons.mpr ⟨met, kept⟩, unmet, reported⟩
  | @refused v vs _ unmet reported =>
      obtain rfl := Except.error.inj outcome
      exact ⟨[], v, vs, rfl, nofun, unmet, reported⟩

end

/-- A count that may not be zero is refused behind its reading. -/
theorem Walks.bind_positive {β : Type} [DecidableEq β] {env : Environment} {told : Settings → Prop}
    {name : String} {bound : Nat} {vs : List Variable} {toNat : β → Nat} {default zero : β}
    {x : Except SettingsFault β} {next : β → Unit → Except SettingsFault Settings}
    (checked : Checked ⟨name, .count 0 bound⟩ env
      (env.Tells name (fun cs b => Text.IsCount cs (toNat b)) default) x)
    (toNat_zero : ∀ b, toNat b = 0 ↔ b = zero) (positive : default ≠ zero)
    (rest : ∀ b, env.Tells name (fun cs b => Text.IsCount cs (toNat b)) default b → b ≠ zero →
      Walks env told vs (next b ())) :
    Walks env told (⟨name, .count 1 bound⟩ :: vs) (x >>= fun b =>
      if b = zero then (throw (.invalid name "0") : Except SettingsFault Unit) >>= next b
      else next b ()) := by
  cases x with
  | error fault =>
      obtain ⟨unmet, reported⟩ := checked.error fault rfl
      refine .refused (fun met => unmet fun cs holds => ?_) ?_
      · obtain ⟨n, count, -, below⟩ := met cs holds
        exact ⟨n, count, Nat.zero_le n, below⟩
      · cases reported with
        | missing text => cases text
        | invalid _ set => exact .invalid (by exact nofun) set
        | zero _ set zero => exact .zero (by exact nofun) set zero
  | ok b =>
      obtain ⟨met, tells⟩ := checked.ok b rfl
      change Walks env told _ (if b = zero then _ else next b ())
      by_cases none_ : b = zero
      · have set : ∃ cs, env.Holds name cs ∧ Text.IsCount cs 0 := by
          rcases tells with ⟨-, same⟩ | ⟨cs, holds, count⟩
          · exact absurd (same.symm.trans none_) positive
          · exact ⟨cs, holds, (toNat_zero b).mpr none_ ▸ count⟩
        obtain ⟨cs, holds, count⟩ := set
        rw [if_pos none_]
        refine .refused (fun met => ?_) (.zero (by exact nofun) holds count)
        obtain ⟨n, count', least, -⟩ := met cs holds
        exact absurd (count.unique count') (by omega)
      · rw [if_neg none_]
        refine .met (fun cs holds => ?_) (rest b tells none_)
        obtain ⟨n, count, -, below⟩ := met cs holds
        rcases tells with ⟨unset, -⟩ | ⟨cs', holds', count'⟩
        · exact absurd holds (env.not_holds unset cs)
        · obtain rfl := holds.unique holds'
          obtain rfl := count.unique count'
          exact ⟨_, count, Nat.pos_of_ne_zero (mt (toNat_zero b).mp none_), below⟩

theorem walks_ofEnvironment (env : Environment) :
    Walks env (Told env) checks (ofEnvironment env) := by
  unfold ofEnvironment
  refine .bind checked_required fun rpcUrl url => ?_
  refine .bind checked_required fun databaseUrl database => ?_
  refine .bind_positive (checked_count 100) (fun n => (UInt64.toNat_inj : _ ↔ n = 0)) (by decide)
    fun chunkSize chunks chunks_ne => ?_
  refine .bind_positive (checked_count32 10) (fun n => (UInt32.toNat_inj : _ ↔ n = 0)) (by decide)
    fun rpcRateLimit rate rate_ne => ?_
  refine .bind (checked_integer 1) fun chainId chain => ?_
  refine .bind (checked_count 32) fun finalityOffset offset => ?_
  refine .bind (checked_count 0) fun startBlock start => ?_
  refine .bind (checked_count 12) fun scanInterval scan => ?_
  refine .bind (checked_count 3) fun publishInterval publish => ?_
  refine .bind (checked_integer 100) fun publishBatchSize batch => ?_
  refine .bind (checked_count 300) fun outboxReclaimAfter reclaim => ?_
  refine .bind (checked_count 30) fun rpcTimeout rpc => ?_
  refine .bind (checked_count 10) fun dbTimeout db => ?_
  refine .bind (checked_count 10) fun busTimeout bus => ?_
  refine .bind (checked_count 60) fun monitoredCacheTtl ttl => ?_
  refine .bind (checked_address Asset.teller) fun teller tellerAt => ?_
  refine .bind (checked_address Asset.atomicQueue) fun atomicQueue queueAt => ?_
  refine .bind (checked_address Asset.lbtcv.address) fun vault vaultAt => ?_
  refine .bind (checked_count16 8080) fun serverPort port => ?_
  exact .done
    { rpcUrl := url, databaseUrl := database, chunkSize := chunks, chunkSize_ne := chunks_ne
      rpcRateLimit := rate, rpcRateLimit_ne := rate_ne, chainId := chain, finalityOffset := offset
      startBlock := start, scanInterval := scan, publishInterval := publish
      publishBatchSize := batch, outboxReclaimAfter := reclaim, rpcTimeout := rpc, dbTimeout := db
      busTimeout := bus, monitoredCacheTtl := ttl, teller := tellerAt, atomicQueue := queueAt
      vault := vaultAt, serverPort := port, brokers := rfl, topic := rfl, groupId := rfl
      serverHost := rfl }

/-- What the parts of the pipeline need: blocks to ask for and requests to ask with, loops that wait
between their turns, and a chain that a registration may fall back on. -/
structure Runnable (s : Settings) : Prop where
  chunkSize : 1 ≤ s.chunkSize
  rpcRateLimit : 1 ≤ s.rpcRateLimit
  scanInterval : s.scanInterval ≠ 0
  publishInterval : s.publishInterval ≠ 0
  chainId : Validation.chainId s.chainId = .ok s.chainId

end Settings

namespace Environment

/-- The variable is set to zero. -/
def SetsZero (env : Environment) (name : String) : Prop :=
  ∃ cs, env.Holds name cs ∧ Text.IsCount cs 0

/-- The chain is set to a number that is not positive. -/
def SetsNoChain (env : Environment) : Prop :=
  ∃ cs n, env.Holds "CHAIN_ID" cs ∧ Text.IsInteger cs n ∧ n ≤ 0

theorem Tells.eq_zero_iff {env : Environment} {name : String} {default n : UInt64}
    (tells : env.Tells name (fun cs n => Text.IsCount cs n.toNat) default n)
    (positive : default ≠ 0) : n = 0 ↔ env.SetsZero name := by
  rcases tells with ⟨unset, rfl⟩ | ⟨cs, holds, count⟩
  · refine ⟨fun zero => absurd zero positive, ?_⟩
    rintro ⟨cs, holds, -⟩
    exact absurd holds (env.not_holds unset cs)
  · constructor
    · rintro rfl
      exact ⟨cs, holds, count⟩
    · rintro ⟨cs', holds', zero⟩
      obtain rfl := holds.unique holds'
      exact UInt64.toNat_inj.mp (count.unique zero)

end Environment

namespace Settings

section

variable {env : Environment} {s : Settings}

theorem Told.chainId_pos_iff (told : Told env s) : 0 < s.chainId ↔ ¬ env.SetsNoChain := by
  rcases told.chainId with ⟨unset, one⟩ | ⟨cs, holds, integer, -⟩
  · rw [one]
    refine iff_of_true (by decide) ?_
    rintro ⟨cs, n, holds, -⟩
    exact env.not_holds unset cs holds
  · constructor
    · rintro positive ⟨cs', n, holds', integer', negative⟩
      obtain rfl := holds.unique holds'
      rw [integer.unique integer'] at positive
      omega
    · intro none_
      by_contra negative
      exact none_ ⟨cs, s.chainId, holds, integer, by omega⟩

theorem Told.chunkSize_pos (told : Told env s) : 1 ≤ s.chunkSize :=
  UInt64.pos_iff_ne_zero.mpr told.chunkSize_ne

theorem Told.rpcRateLimit_pos (told : Told env s) : 1 ≤ s.rpcRateLimit :=
  UInt32.pos_iff_ne_zero.mpr told.rpcRateLimit_ne

theorem Told.runnable_iff (told : Told env s) :
    s.Runnable ↔ ¬ env.SetsZero "SCAN_INTERVAL_SECS" ∧ ¬ env.SetsZero "PUBLISH_INTERVAL_SECS" ∧
      ¬ env.SetsNoChain := by
  rw [← told.scanInterval.eq_zero_iff (by decide), ← told.publishInterval.eq_zero_iff (by decide),
    ← told.chainId_pos_iff]
  constructor
  · intro runnable
    exact ⟨runnable.scanInterval, runnable.publishInterval,
      (Validation.chainId_eq_ok_iff.mp runnable.chainId).1⟩
  · rintro ⟨scan, publish, positive⟩
    exact ⟨told.chunkSize_pos, told.rpcRateLimit_pos, scan, publish,
      Validation.chainId_eq_ok_iff.mpr ⟨positive, rfl⟩⟩

end

section

variable {r : Http.Request} {registration : Http.Registration} {a : Address} {stores : Http.Stores}

/-- A registration that names no chain is one on the chain that the scanner looks wallets up on. -/
theorem serve_of_default (s : Settings) (positive : 0 < s.chainId) (posts : r.Posts registration)
    (spells : Text.Spells registration.wallet.toList 40 a.bits.toNat)
    (unnamed : registration.chainId = none) :
    let watched : Watched := ⟨a.checksummed, (Scan.Plan.ofSettings s).chainId⟩
    Http.serve s.chainId r stores =
      (Http.registered watched !stores.watchList.contains watched,
        { stores with watchList := stores.watchList.register watched }) := by
  refine Http.serve_of_registers ⟨registration, posts, spells, ?_, positive⟩
  rw [unnamed]
  rfl

/-- Where the configured chain is not positive, it is refused. -/
theorem serve_of_no_default (s : Settings) (negative : ¬ 0 < s.chainId)
    (posts : r.Posts registration) (unnamed : registration.chainId = none) :
    (Http.serve s.chainId r stores).1.status = 400 ∧ (Http.serve s.chainId r stores).2 = stores := by
  have nothing : ∀ b chain, ¬ r.Registers s.chainId b chain := by
    rintro b chain ⟨registration', ⟨-, -, body⟩, -, same, positive⟩
    obtain rfl := Except.ok.inj (posts.2.2.symm.trans body)
    rw [unnamed, Option.getD_none] at same
    exact negative (same ▸ positive)
  obtain ⟨fault, served⟩ := Http.serve_of_posts (s := stores) posts nothing
  rw [served]
  exact ⟨Http.status_ofValidation fault, rfl⟩

end

/-- Accepted settings tell what the variables hold, and the pipeline can run on them just if neither
interval is set to zero and the chain is not set to a number that is not positive: then a wallet that
is registered without a chain is registered on the chain of the scanner. Other environments are
refused for their first variable that does not hold what it has to. -/
theorem accepted_runs_iff (env : Environment) :
    (∀ s, ofEnvironment env = .ok s →
      (∀ v ∈ checks, v.Met env) ∧ Told env s ∧ 1 ≤ s.chunkSize ∧ 1 ≤ s.rpcRateLimit ∧
      (s.Runnable ↔ ¬ env.SetsZero "SCAN_INTERVAL_SECS" ∧
        ¬ env.SetsZero "PUBLISH_INTERVAL_SECS" ∧ ¬ env.SetsNoChain) ∧
      ∀ (r : Http.Request) (registration : Http.Registration) (a : Address) (stores : Http.Stores),
        r.Posts registration → Text.Spells registration.wallet.toList 40 a.bits.toNat →
          registration.chainId = none →
            let watched : Watched := ⟨a.checksummed, (Scan.Plan.ofSettings s).chainId⟩
            (¬ env.SetsNoChain → Http.serve s.chainId r stores =
              (Http.registered watched !stores.watchList.contains watched,
                { stores with watchList := stores.watchList.register watched })) ∧
            (env.SetsNoChain → (Http.serve s.chainId r stores).1.status = 400 ∧
              (Http.serve s.chainId r stores).2 = stores)) ∧
    ∀ fault, ofEnvironment env = .error fault →
      ∃ before v after, checks = before ++ v :: after ∧ (∀ u ∈ before, u.Met env) ∧ ¬ v.Met env ∧
        v.Reported env fault := by
  have walks := walks_ofEnvironment env
  constructor
  · intro s accepted
    rw [accepted] at walks
    obtain ⟨met, told⟩ := walks.of_ok
    refine ⟨met, told, told.chunkSize_pos, told.rpcRateLimit_pos, told.runnable_iff, ?_⟩
    intro r registration a stores posts spells unnamed
    refine ⟨fun chain => ?_, fun none_ => ?_⟩
    · exact serve_of_default s (told.chainId_pos_iff.mpr chain) posts spells unnamed
    · exact serve_of_no_default s (mt told.chainId_pos_iff.mp (not_not.mpr none_)) posts unnamed
  · intro fault refused
    rw [refused] at walks
    exact walks.of_error

/-- The two variables that have to be set, and one more. -/
def sampleEnvironment (name value : String) : Environment :=
  [("RPC_URL", Text.utf8 ['u']), ("DATABASE_URL", Text.utf8 ['d']),
   (name, Text.utf8 value.toList)]

theorem accepted_of_field {β : Type} (env : Environment) (field : Settings → β) (b : β)
    (read : (ofEnvironment env).toOption.map field = some b) :
    ∃ s, ofEnvironment env = .ok s ∧ field s = b := by
  cases outcome : ofEnvironment env with
  | error fault =>
      rw [outcome] at read
      cases read
  | ok s =>
      rw [outcome] at read
      exact ⟨s, rfl, Option.some.inj read⟩

/-- Intervals of zero and chains that are not positive are accepted. -/
theorem unrunnable_settings_accepted :
    (∃ s, ofEnvironment (sampleEnvironment "SCAN_INTERVAL_SECS" "0") = .ok s ∧
      s.scanInterval = 0 ∧ ¬ s.Runnable) ∧
    (∃ s, ofEnvironment (sampleEnvironment "PUBLISH_INTERVAL_SECS" "0") = .ok s ∧
      s.publishInterval = 0 ∧ ¬ s.Runnable) ∧
    ∃ s, ofEnvironment (sampleEnvironment "CHAIN_ID" "-1") = .ok s ∧
      Validation.chainId s.chainId =
        .error (.invalidParameter "chain_id must be positive, got -1") ∧ ¬ s.Runnable := by
  refine ⟨?_, ?_, ?_⟩
  · obtain ⟨s, accepted, zero⟩ := accepted_of_field
      (sampleEnvironment "SCAN_INTERVAL_SECS" "0") scanInterval 0 (by decide +kernel)
    exact ⟨s, accepted, zero, fun runnable => runnable.scanInterval zero⟩
  · obtain ⟨s, accepted, zero⟩ := accepted_of_field
      (sampleEnvironment "PUBLISH_INTERVAL_SECS" "0") publishInterval 0 (by decide +kernel)
    exact ⟨s, accepted, zero, fun runnable => runnable.publishInterval zero⟩
  · obtain ⟨s, accepted, negative⟩ := accepted_of_field
      (sampleEnvironment "CHAIN_ID" "-1") chainId (-1) (by decide +kernel)
    refine ⟨s, accepted, ?_, fun runnable => ?_⟩
    · rw [negative]
      decide +kernel
    · exact absurd (Validation.chainId_eq_ok_iff.mp runnable.chainId).1 (by rw [negative]; decide)

end Settings

end VaultTransfers
