import VaultTransfers.Proofs.Consume.Progress
import VaultTransfers.Proofs.Orders.Outcome
import VaultTransfers.Proofs.Transfer.Tokens

/-!
Which withdrawal a fulfilment closes. It is that of the wallet's last request,
as long as nothing has fulfilled it, and the tokens of the fulfilment have no say
in it. So the names of the tokens agree with those of the closed order exactly if
the fulfilment is about the tokens of the request.
-/

namespace VaultTransfers

namespace Message

/-- The message is published for a log that means an event. -/
def Reports (contracts : Contracts) (m : Message) : Prop :=
  ∃ (log : Log) (decoded : DecodedLog) (date published : Instant),
    log.resolve contracts = .ok (.event decoded) ∧ m = .ofEvent (log.toEvent decoded date) published

section

variable {contracts : Contracts} {m : Message}

theorem Reports.tokens (reports : m.Reports contracts) (withdrawal : m.kind ≠ .deposit) :
    ∃ payload, m.payload = .ok payload ∧ payload.kind = m.kind ∧ ∃ offer want : Address,
      payload.tokens? = some (offer.checksummed, want.checksummed) ∧
        m.fromAsset = Asset.displayName offer ∧ m.toAsset = Asset.displayName want ∧
          (m.kind = .withdrawalRequested → offer = contracts.vault) := by
  obtain ⟨log, decoded, date, published, resolved, rfl⟩ := reports
  exact ⟨decoded.payload, payload_ofEvent _ _, rfl, Log.tokens_of_resolve resolved withdrawal⟩

theorem Reports.request (reports : m.Reports contracts) (kind : m.kind = .withdrawalRequested) :
    ∃ fields, m.payload = .ok (.withdrawalRequested fields) ∧ ∃ want : Address,
      fields.offerToken = contracts.vault.checksummed ∧ fields.wantToken = want.checksummed ∧
        m.fromAsset = Asset.displayName contracts.vault ∧ m.toAsset = Asset.displayName want := by
  obtain ⟨payload, read, same, offer, want, tokens, fromAsset, toAsset, vault⟩ :=
    reports.tokens (by simp [kind])
  obtain rfl := vault kind
  rw [kind] at same
  cases payload with
  | deposit _ => cases same
  | withdrawalCompleted _ => cases same
  | withdrawalRequested fields =>
      obtain ⟨offered, wanted⟩ := Prod.mk.inj (Option.some.inj tokens)
      exact ⟨fields, read, want, offered, wanted, fromAsset, toAsset⟩

theorem Reports.fulfilment (reports : m.Reports contracts) (kind : m.kind = .withdrawalCompleted) :
    ∃ fields, m.payload = .ok (.withdrawalCompleted fields) ∧ ∃ offer want : Address,
      fields.offerToken = offer.checksummed ∧ fields.wantToken = want.checksummed ∧
        m.fromAsset = Asset.displayName offer ∧ m.toAsset = Asset.displayName want := by
  obtain ⟨payload, read, same, offer, want, tokens, fromAsset, toAsset, -⟩ :=
    reports.tokens (by simp [kind])
  rw [kind] at same
  cases payload with
  | deposit _ => cases same
  | withdrawalRequested _ => cases same
  | withdrawalCompleted fields =>
      obtain ⟨offered, wanted⟩ := Prod.mk.inj (Option.some.inj tokens)
      exact ⟨fields, read, offer, want, offered, wanted, fromAsset, toAsset⟩

end

/-- Whether the message is not refused for what it says. -/
def isApplicable (m : Message) : Bool :=
  match m.payload with
  | .ok (.withdrawalRequested request) => (Amount.estimate m.amount request.minPrice).isOk
  | .ok _ => true
  | .error _ => false

theorem isApplicable_iff {m : Message} : m.isApplicable = true ↔ m.IsSound := by
  unfold isApplicable IsSound
  cases m.payload with
  | error fault => simp
  | ok payload =>
      cases payload with
      | deposit _ => simp
      | withdrawalCompleted _ => simp
      | withdrawalRequested request =>
          cases computed : Amount.estimate m.amount request.minPrice with
          | error fault => simp [computed, Except.isOk, Except.toBool]
          | ok estimate => simp [computed, Except.isOk, Except.toBool]

end Message

namespace Materialize

/-- Messages known by different keys, with a new identity for each, and those of one wallet in the
order of the chain; not all of them need be applicable. -/
structure Chained (as : List Arrival) : Prop where
  keys : (as.map (·.message.key)).Nodup
  identities : (as.map (·.fresh)).Nodup
  chain : as.Pairwise fun a b =>
    a.message.wallet = b.message.wallet → a.message.position.before b.message.position = true

def applicable (as : List Arrival) : List Arrival :=
  as.filter (·.message.isApplicable)

/-- A request, and no later message about a withdrawal of its wallet that could be applied. -/
def Awaits (as : List Arrival) (a : Arrival) : Prop :=
  ∃ before later, as = before ++ a :: later ∧ a.message.kind = .withdrawalRequested ∧
    a.message.IsSound ∧ ∀ b ∈ later, b.message.wallet = a.message.wallet → b.message.IsSound →
      b.message.kind = .deposit

section

variable {as : List Arrival} {a b : Arrival} {w : String}

theorem Chained.history (chained : Chained as) : History (applicable as) where
  keys := chained.keys.sublist (List.filter_sublist.map _)
  identities := chained.identities.sublist (List.filter_sublist.map _)
  sound _ member := Message.isApplicable_iff.mp (List.mem_filter.mp member).2
  chain := chained.chain.sublist List.filter_sublist

theorem snd_applyAll_applicable (as : List Arrival) (table : OrderTable) :
    (applyAll (applicable as) table).2 = (applyAll as table).2 := by
  induction as generalizing table with
  | nil => rfl
  | cons a as ih =>
      rw [applyAll_cons, applicable, List.filter_cons]
      split
      · rw [applyAll_cons]
        exact ih (settle a table).2
      · rename_i refused
        obtain ⟨fault, settled, -⟩ :=
          settle_of_not_isSound (fun sound => refused (Message.isApplicable_iff.mpr sound)) table
        rw [settled]
        exact ih table

theorem mirrors_applicable (chained : Chained as) :
    Mirrors (applyAll as .empty).2 (applicable as) := by
  obtain ⟨answers, after, applied, mirrors⟩ :=
    mirrors_empty.applyAll_eq (applicable as) chained.history
  rw [← snd_applyAll_applicable, applied]
  exact mirrors

theorem kept_applyAll (identities : (as.map (·.fresh)).Nodup) :
    Kept as (applyAll as .empty).2 :=
  (kept_empty.stream identities (@runs_applyAll (fun _ _ => False) as .empty)).1

theorem Awaits.concat_of_other (awaits : Awaits as a)
    (other : b.message.wallet = a.message.wallet → b.message.IsSound → b.message.kind = .deposit) :
    Awaits (as ++ [b]) a := by
  obtain ⟨before, later, rfl, request, sound, quiet⟩ := awaits
  refine ⟨before, later ++ [b], by simp, request, sound, ?_⟩
  intro c member
  rcases List.mem_append.mp member with earlier | last
  · exact quiet c earlier
  · rw [List.mem_singleton.mp last]
    exact other

/-- The request that a wallet awaits the fulfilment of is the last of its open run. -/
theorem awaits_of_openRun? {first : Arrival} {last : Message}
    (run : openRun? (ofWallet w (applicable as)) = some (first, last)) :
    ∃ a, Awaits as a ∧ a.message = last ∧ last.wallet = w := by
  induction as using List.reverseRecOn generalizing first with
  | nil => cases run
  | append_singleton as b ih =>
      rw [applicable, List.filter_append, ofWallet_append] at run
      by_cases mine : b.message.isApplicable = true ∧ b.message.wallet = w
      · obtain ⟨applies, rfl⟩ := mine
        have taken : [b].filter (·.message.isApplicable) = [b] := by simp [applies]
        rw [taken, ofWallet_singleton, openRun?_append] at run
        cases kind : b.message.kind with
        | deposit =>
            rw [kind] at run
            obtain ⟨a, awaits, same⟩ := ih run
            exact ⟨a, awaits.concat_of_other fun _ _ => kind, same⟩
        | withdrawalRequested =>
            rw [kind] at run
            obtain ⟨-, rfl⟩ := Prod.mk.inj (Option.some.inj run)
            refine ⟨b, ⟨as, [], rfl, kind, Message.isApplicable_iff.mp applies, ?_⟩, rfl, rfl⟩
            exact fun c member => absurd member List.not_mem_nil
        | withdrawalCompleted =>
            rw [kind] at run
            cases run
      · have skipped : ofWallet w ([b].filter (·.message.isApplicable)) = [] := by
          rw [ofWallet, List.filter_filter, List.filter_eq_nil_iff]
          intro c member
          rw [List.mem_singleton.mp member]
          simpa [and_comm] using mine
        rw [skipped, List.append_nil] at run
        obtain ⟨a, awaits, rfl, wallet⟩ := ih run
        refine ⟨a, awaits.concat_of_other ?_, rfl, wallet⟩
        intro same sound
        exact absurd ⟨Message.isApplicable_iff.mpr sound, same.trans wallet⟩ mine

theorem ofWallet_applicable_cons {before later : List Arrival} (sound : a.message.IsSound) :
    ofWallet a.message.wallet (applicable (before ++ a :: later)) =
      ofWallet a.message.wallet (applicable before) ++
        a :: ofWallet a.message.wallet (applicable later) := by
  simp [applicable, ofWallet, Message.isApplicable_iff.mpr sound]

theorem Awaits.openRun? (awaits : Awaits as a) :
    ∃ first, openRun? (ofWallet a.message.wallet (applicable as)) = some (first, a.message) := by
  obtain ⟨before, later, rfl, request, sound, quiet⟩ := awaits
  rw [ofWallet_applicable_cons sound]
  refine openRun?_of_request _ _ request ?_
  intro d member
  obtain ⟨among, wallet⟩ := mem_ofWallet.mp member
  obtain ⟨d_mem, applies⟩ := List.mem_filter.mp among
  exact quiet d d_mem wallet (Message.isApplicable_iff.mp applies)

/-- Under a new key a fulfilment closes the open withdrawal of its wallet, if there is one. -/
theorem applyTo_fulfilment (kept : Kept as (applyAll as .empty).2)
    (identity : ∀ c ∈ as, c.fresh ≠ b.fresh) (sound : b.message.IsSound)
    (fulfilment : b.message.kind = .withdrawalCompleted) :
    ∃ after, applyTo b (applyAll as .empty).2 =
        (.ok (fulfilmentVerdict b (applyAll as .empty).2).applied, after) ∧
      Change b (applyAll as .empty).2 (fulfilmentVerdict b (applyAll as .empty).2).applied after := by
  have unused : ∀ o ∈ (applyAll as .empty).2.orders, o.id ≠ b.fresh := by
    intro o member
    obtain ⟨c, among, same⟩ := kept.issued o member
    rw [same]
    exact identity c among
  rw [applyTo_eq_settle, settle, verdict_of_isSound sound, fulfilment]
  exact settles_fulfilment kept.consistent unused fulfilment

theorem fulfilmentVerdict_closes_iff {table : OrderTable} :
    (fulfilmentVerdict b table).applied = .withdrawalCompleted ↔
      (∀ o ∈ table.orders, o.key ≠ b.message.key ∧ o.isCompletedBy b.message.key = false) ∧
        (table.openOf b.message.wallet).isSome = true := by
  unfold fulfilmentVerdict
  cases completed : table.byCompletion b.message.key with
  | some o =>
      have member := List.mem_of_find?_eq_some completed
      have same : o.isCompletedBy b.message.key = true := by simpa using List.find?_some completed
      refine ⟨fun closes => absurd closes (by simp), ?_⟩
      rintro ⟨unknown, -⟩
      rw [(unknown o member).2] at same
      cases same
  | none =>
      have unfulfilled := OrderTable.byCompletion_eq_none completed
      cases known : table.byKey b.message.key with
      | some o =>
          obtain ⟨member, key⟩ := OrderTable.byKey_eq_some known
          refine ⟨fun closes => absurd closes (by simp), ?_⟩
          rintro ⟨unknown, -⟩
          exact absurd key (unknown o member).1
      | none =>
          have unknown := OrderTable.byKey_eq_none known
          have apart : ∀ o ∈ table.orders,
              o.key ≠ b.message.key ∧ o.isCompletedBy b.message.key = false :=
            fun o member => ⟨unknown o member, unfulfilled o member⟩
          cases found : table.openOf b.message.wallet with
          | some o => simpa using apart
          | none => simp

theorem Mirrors.isSome_openOf_iff {table : OrderTable} (mirrors : Mirrors table (applicable as)) :
    (table.openOf w).isSome = true ↔ ∃ a, Awaits as a ∧ a.message.wallet = w := by
  rw [mirrors.openOf_eq]
  constructor
  · intro found
    obtain ⟨row, found⟩ := Option.isSome_iff_exists.mp found
    obtain ⟨⟨first, last⟩, run, -⟩ := Option.map_eq_some_iff.mp found
    obtain ⟨a, awaits, rfl, wallet⟩ := awaits_of_openRun? run
    exact ⟨a, awaits, wallet⟩
  · rintro ⟨a, awaits, rfl⟩
    obtain ⟨first, run⟩ := awaits.openRun?
    rw [run]
    rfl

/-- The open withdrawal of a wallet is that of the request that it awaits the fulfilment of. -/
theorem Mirrors.awaits_of_isOpenOf {table : OrderTable} {o : Order}
    (mirrors : Mirrors table (applicable as)) (member : o ∈ table.orders)
    (isOpen : o.isOpenOf w = true) :
    ∃ a, Awaits as a ∧ a.message.wallet = w ∧ o.key = a.message.key ∧
      o.fromAsset = a.message.fromAsset ∧ o.toAsset = a.message.toAsset := by
  have among : o ∈ table.orders.filter (·.isOpenOf w) := List.mem_filter.mpr ⟨member, isOpen⟩
  rw [mirrors.filter_isOpenOf, Option.mem_toList] at among
  obtain ⟨⟨first, last⟩, run, rfl⟩ := Option.map_eq_some_iff.mp among
  obtain ⟨a, awaits, rfl, wallet⟩ := awaits_of_openRun? run
  exact ⟨a, awaits, wallet, rfl, rfl, rfl⟩

theorem Awaits.mem (awaits : Awaits as a) : a ∈ as := by
  obtain ⟨before, later, rfl, -⟩ := awaits
  simp

theorem Awaits.isRequest (awaits : Awaits as a) : a.message.kind = .withdrawalRequested := by
  obtain ⟨_, _, _, request, -⟩ := awaits
  exact request

/-- A fulfilment closes the withdrawal of its wallet's last request, unless it has been dealt with
already or that request is fulfilled, and whatever its tokens are. What it closes stays an order of
the vault's shares; so the names of the fulfilment's tokens are those of the order if and only if
the tokens are those of the request. -/
theorem closes_last_request {contracts : Contracts} {table : OrderTable} (chained : Chained as)
    (reports : ∀ a ∈ as, a.message.Reports contracts) (identity : ∀ a ∈ as, a.fresh ≠ b.fresh)
    (report : b.message.Reports contracts) (fulfilment : b.message.kind = .withdrawalCompleted)
    (reached : (applyAll as .empty).2 = table) :
    ((applyTo b table).1 = .ok .withdrawalCompleted ↔
      (∀ o ∈ table.orders, o.key ≠ b.message.key ∧ o.isCompletedBy b.message.key = false) ∧
        ∃ a, Awaits as a ∧ a.message.wallet = b.message.wallet) ∧
    ∀ after, applyTo b table = (.ok .withdrawalCompleted, after) →
      ∃ a o request tokens, Awaits as a ∧ a.message.wallet = b.message.wallet ∧
        o ∈ table.orders ∧ o.isOpenOf b.message.wallet = true ∧ o.key = a.message.key ∧
        after = table.replace (closed o b.message) ∧
        a.message.payload = .ok (.withdrawalRequested request) ∧
        b.message.payload = .ok (.withdrawalCompleted tokens) ∧
        o.fromAsset = Asset.displayName contracts.vault ∧ o.toAsset = a.message.toAsset ∧
        (b.message.fromAsset = o.fromAsset ↔ tokens.offerToken = request.offerToken) ∧
        (b.message.toAsset = o.toAsset ↔ tokens.wantToken = request.wantToken) := by
  subst reached
  have mirrors := mirrors_applicable chained
  obtain ⟨tokens, read, offer, want, offered, wanted, fromAsset, toAsset⟩ :=
    report.fulfilment fulfilment
  have sound : b.message.IsSound := by
    rw [Message.IsSound, read]
    trivial
  obtain ⟨next, applied, change⟩ :=
    applyTo_fulfilment (kept_applyAll chained.identities) identity sound fulfilment
  rw [applied]
  refine ⟨?_, ?_⟩
  · rw [Except.ok.injEq, fulfilmentVerdict_closes_iff, mirrors.isSome_openOf_iff]
  · rintro after same
    obtain ⟨closes, rfl⟩ := Prod.mk.inj same
    rw [Except.ok.inj closes] at change
    cases change with
    | @withdrawalCompleted o _ member isOpen _ _ =>
        obtain ⟨a, awaits, wallet, key, source, target⟩ :=
          mirrors.awaits_of_isOpenOf member isOpen
        obtain ⟨request, asked, want', offered', wanted', fromAsset', toAsset'⟩ :=
          (reports a awaits.mem).request awaits.isRequest
        refine ⟨a, o, request, tokens, awaits, wallet, member, isOpen, key, rfl, asked, read,
          source.trans fromAsset', target, ?_, ?_⟩
        · rw [source, fromAsset, fromAsset', offered, offered', Asset.displayName_eq_iff]
        · rw [target, toAsset, toAsset', wanted, wanted', Asset.displayName_eq_iff]

end

def sampleUser : Address :=
  (Word.ofNat 0x11).address

def sampleWords (offer want : Asset) (data : List Word) : EventWords :=
  ⟨.ofNat 0x11, ⟨offer.address.bits.zeroExtend 256⟩, ⟨want.address.bits.zeroExtend 256⟩, data⟩

/-- A request in block 1 of the vault's shares for another token. -/
def sampleShares : Log :=
  Consume.sampleOffer (List.replicate 31 0 ++ [100]) (List.replicate 31 0 ++ [1])

def sampleRequested : DecodedLog where
  wallet := sampleUser.checksummed
  amount := Log.formatted (.ofNat 100) 8
  fromAsset := "LBTCv"
  toAsset := "LBTC"
  payload := .withdrawalRequested
    { user := sampleUser.checksummed
      offerToken := Asset.lbtcv.address.checksummed
      wantToken := Asset.lbtc.address.checksummed
      amount := Log.numeral (.ofNat 100)
      deadline := Log.numeral (.ofNat 0)
      minPrice := Log.numeral (.ofNat 1)
      timestamp := Log.numeral (.ofNat 0) }

theorem resolve_sampleShares :
    sampleShares.resolve Consume.sampleContracts = .ok (.event sampleRequested) := by
  have words : sampleShares.eventWords .withdrawalRequested =
      .ok (sampleWords .lbtcv .lbtc [.ofNat 100, .ofNat 0, .ofNat 1, .ofNat 0]) := by
    decide +kernel
  exact Log.resolve_of_words (by decide +kernel) (by decide +kernel) words

/-- A fulfilment in block 2 of the same user's offer of one wrapped token for another. -/
def sampleExchange : Log where
  address := Asset.atomicQueue
  topics := [EventKind.withdrawalCompleted.topic, .ofNat 0x11,
    ⟨Asset.wbtc.address.bits.zeroExtend 256⟩, ⟨Asset.cbtc.address.bits.zeroExtend 256⟩]
  data := List.replicate 96 0
  blockNumber := 2
  txHash := .ofNat 8
  logIndex := 0
  removed := false

def sampleFulfilled : DecodedLog where
  wallet := sampleUser.checksummed
  amount := Log.formatted (.ofNat 0) 8
  fromAsset := "WBTC"
  toAsset := "CBTC"
  payload := .withdrawalCompleted
    { user := sampleUser.checksummed
      offerToken := Asset.wbtc.address.checksummed
      wantToken := Asset.cbtc.address.checksummed
      offerAmountSpent := Log.numeral (.ofNat 0)
      wantAmountReceived := Log.numeral (.ofNat 0)
      timestamp := Log.numeral (.ofNat 0) }

theorem resolve_sampleExchange :
    sampleExchange.resolve Consume.sampleContracts = .ok (.event sampleFulfilled) := by
  have words : sampleExchange.eventWords .withdrawalCompleted =
      .ok (sampleWords .wbtc .cbtc [.ofNat 0, .ofNat 0, .ofNat 0]) := by
    decide +kernel
  exact Log.resolve_of_words (by decide +kernel) (by decide +kernel) words

/-- The message of a log, with the identity at hand for its order. -/
def sampleReport (id : Nat) (log : Log) (decoded : DecodedLog) : Arrival :=
  ⟨⟨id⟩, .ofEvent (log.toEvent decoded (.ofUnixMillis 0)) (.ofUnixMillis 0)⟩

def sampleOpening : Arrival :=
  sampleReport 0 sampleShares sampleRequested

def sampleClosing : Arrival :=
  sampleReport 1 sampleExchange sampleFulfilled

theorem isSound_sampleOpening : sampleOpening.message.IsSound :=
  isSound_of_resolve resolve_sampleShares fun excess => absurd excess.2 (by decide +kernel)

theorem isSound_sampleClosing : sampleClosing.message.IsSound :=
  isSound_of_resolve resolve_sampleExchange fun excess => absurd excess.1 (by decide)

theorem chained_sampleOpening : Chained [sampleOpening] :=
  ⟨List.nodup_singleton _, List.nodup_singleton _, List.pairwise_singleton _ _⟩

theorem reports_sampleOpening : ∀ a ∈ [sampleOpening], a.message.Reports Consume.sampleContracts := by
  intro a member
  rw [List.mem_singleton.mp member]
  exact ⟨_, _, _, _, resolve_sampleShares, rfl⟩

theorem awaits_sampleOpening : Awaits [sampleOpening] sampleOpening :=
  ⟨[], [], rfl, rfl, isSound_sampleOpening, fun _ member => absurd member List.not_mem_nil⟩

theorem orders_sampleOpening : (applyAll [sampleOpening] .empty).2.orders =
    [withdrawalRow sampleOpening sampleOpening.message none] := by
  have mirrors := mirrors_applicable chained_sampleOpening
  have taken : applicable [sampleOpening] = [sampleOpening] :=
    List.filter_eq_self.mpr fun a member =>
      List.mem_singleton.mp member ▸ Message.isApplicable_iff.mpr isSound_sampleOpening
  rw [taken] at mirrors
  exact mirrors.orders_eq fun a member => by rw [List.mem_singleton.mp member]

theorem unknown_sampleClosing : ∀ o ∈ (applyAll [sampleOpening] .empty).2.orders,
    o.key ≠ sampleClosing.message.key ∧ o.isCompletedBy sampleClosing.message.key = false := by
  intro o member
  rw [orders_sampleOpening, List.mem_singleton] at member
  rw [member]
  exact ⟨by decide, rfl⟩

/-- The order of the request is one of the vault's shares; a fulfilment of the user's offer of
another token closes it. -/
theorem foreign_fulfilment_closes :
    sampleShares.resolve Consume.sampleContracts = .ok (.event sampleRequested) ∧
      sampleExchange.resolve Consume.sampleContracts = .ok (.event sampleFulfilled) ∧
      ∃ o, (applyAll [sampleOpening] .empty).2.orders = [o] ∧
        (o.fromAsset, o.toAsset, o.status) = ("LBTCv", "LBTC", .inProgress) ∧
        (sampleClosing.message.fromAsset, sampleClosing.message.toAsset) = ("WBTC", "CBTC") ∧
        (applyTo sampleClosing (applyAll [sampleOpening] .empty).2).1 =
          .ok .withdrawalCompleted := by
  refine ⟨resolve_sampleShares, resolve_sampleExchange, _, orders_sampleOpening, rfl, rfl, ?_⟩
  obtain ⟨after, applied, -⟩ := applyTo_fulfilment
    (kept_applyAll chained_sampleOpening.identities) (by decide) isSound_sampleClosing rfl
  rw [applied, Except.ok.injEq, fulfilmentVerdict_closes_iff,
    (mirrors_applicable chained_sampleOpening).isSome_openOf_iff]
  exact ⟨unknown_sampleClosing, sampleOpening, awaits_sampleOpening, rfl⟩

theorem closes_last_request_of_other_tokens :
    ∃ o ∈ (applyAll [sampleOpening] .empty).2.orders, o.fromAsset = "LBTCv" ∧
      applyTo sampleClosing (applyAll [sampleOpening] .empty).2 = (.ok .withdrawalCompleted,
        (applyAll [sampleOpening] .empty).2.replace (closed o sampleClosing.message)) := by
  obtain ⟨answer, effect⟩ := closes_last_request (b := sampleClosing) chained_sampleOpening
    reports_sampleOpening (by decide) ⟨_, _, _, _, resolve_sampleExchange, rfl⟩ rfl rfl
  have closes := answer.mpr ⟨unknown_sampleClosing, sampleOpening, awaits_sampleOpening, rfl⟩
  generalize applyTo sampleClosing (applyAll [sampleOpening] .empty).2 = result at closes effect ⊢
  obtain ⟨told, after⟩ := result
  obtain rfl : told = .ok .withdrawalCompleted := closes
  obtain ⟨a, o, request, tokens, -, -, member, -, -, rfl, -, -, fromAsset, -⟩ := effect after rfl
  exact ⟨o, member, fromAsset, rfl⟩

end Materialize

end VaultTransfers
