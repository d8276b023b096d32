import VaultTransfers.Proofs.Amount.Grammar
import VaultTransfers.Proofs.Codec.Payload
import VaultTransfers.Proofs.Transfer.Tokens
import VaultTransfers.Text.Utf8

/-!
Logs and what they are decoded to. An event is laid out by a list of typed
parameters, which its signature spells and which tells where each of them stands
in a log: in a topic if it is indexed, or else in a word of the data. Every way in
which a log is passed over, refused or decoded is told from that layout.
-/

namespace VaultTransfers

/-- A number from bytes by the weight of each, highest first. -/
def bigEndian : List UInt8 → Nat
  | [] => 0
  | b :: bs => b.toNat * Nat.pow 256 bs.length + bigEndian bs

theorem bigEndian_lt (bytes : List UInt8) : bigEndian bytes < Nat.pow 256 bytes.length := by
  induction bytes with
  | nil => exact Nat.one_pos
  | cons b bs ih =>
      have step : Nat.pow 256 (b :: bs).length = 256 * Nat.pow 256 bs.length := Nat.mul_comm _ _
      have highest : b.toNat + 1 ≤ 256 := b.toNat_lt
      have whole := Nat.mul_le_mul_right (Nat.pow 256 bs.length) highest
      rw [Nat.add_mul, Nat.one_mul] at whole
      rw [bigEndian, step]
      omega

theorem foldl_bytes (bytes : List UInt8) (n : Nat) :
    bytes.foldl (fun n b => 256 * n + b.toNat) n =
      n * Nat.pow 256 bytes.length + bigEndian bytes := by
  induction bytes generalizing n with
  | nil => exact (Nat.mul_one n).symm
  | cons b bs ih =>
      have step : Nat.pow 256 (b :: bs).length = 256 * Nat.pow 256 bs.length := Nat.mul_comm _ _
      rw [List.foldl_cons, ih, bigEndian, step, Nat.add_mul, Nat.add_assoc, Nat.mul_comm 256 n,
        Nat.mul_assoc]

theorem Word.toNat_ofBytes {bytes : List UInt8} (short : bytes.length ≤ 32) :
    (Word.ofBytes bytes).toNat = bigEndian bytes := by
  have small : bigEndian bytes < 2 ^ 256 :=
    Nat.lt_of_lt_of_le (bigEndian_lt bytes) (Nat.pow_le_pow_right (by decide : 0 < 256) short)
  rw [Word.ofBytes, foldl_bytes, Nat.zero_mul, Nat.zero_add]
  exact (BitVec.toNat_ofNat _ _).trans (Nat.mod_eq_of_lt small)

/-- The types of the parameters. -/
inductive ParameterType where
  | uint256
  | address
deriving DecidableEq, Repr

namespace ParameterType

def name : ParameterType → String
  | uint256 => "uint256"
  | address => "address"

/-- The text is the value that a number stands for: its shortest numeral, or the checksummed address
in its low 20 bytes. -/
def Shows (text : String) (n : Nat) : ParameterType → Prop
  | uint256 => Amount.parseInteger text = .ok n ∧ Amount.IsWhole text.toList
  | address => text = (Address.ofNat n).checksummed

end ParameterType

/-- A parameter of an event, and the member of the payload that shows it. -/
structure Parameter where
  member : String
  type : ParameterType
  indexed : Bool
deriving DecidableEq, Repr

namespace EventKind

def parameters : EventKind → List Parameter
  | deposit =>
    [⟨"nonce", .uint256, true⟩, ⟨"receiver", .address, true⟩, ⟨"deposit_asset", .address, true⟩,
     ⟨"deposit_amount", .uint256, false⟩, ⟨"share_amount", .uint256, false⟩,
     ⟨"deposit_timestamp", .uint256, false⟩,
     ⟨"share_lock_period_at_time_of_deposit", .uint256, false⟩]
  | withdrawalRequested =>
    [⟨"user", .address, true⟩, ⟨"offer_token", .address, true⟩, ⟨"want_token", .address, true⟩,
     ⟨"amount", .uint256, false⟩, ⟨"deadline", .uint256, false⟩, ⟨"min_price", .uint256, false⟩,
     ⟨"timestamp", .uint256, false⟩]
  | withdrawalCompleted =>
    [⟨"user", .address, true⟩, ⟨"offer_token", .address, true⟩, ⟨"want_token", .address, true⟩,
     ⟨"offer_amount_spent", .uint256, false⟩, ⟨"want_amount_received", .uint256, false⟩,
     ⟨"timestamp", .uint256, false⟩]

/-- The hash of the event's name and of the types of its parameters. -/
def signatureHash (kind : EventKind) : Word :=
  let types := ",".intercalate (kind.parameters.map (·.type.name))
  .ofBytes (Keccak.digest (Text.utf8 (kind.eventName ++ "(" ++ types ++ ")").toList))

/-- The size of the data of the event's logs, in bytes. -/
def dataSize : EventKind → Nat
  | deposit | withdrawalRequested => 128
  | withdrawalCompleted => 96

theorem topic_eq (kind : EventKind) : kind.topic = kind.signatureHash := by
  cases kind with
  | deposit => decide +kernel
  | withdrawalRequested => decide +kernel
  | withdrawalCompleted => decide +kernel

theorem dataSize_eq (kind : EventKind) : kind.dataSize = 32 * kind.dataWords := by
  cases kind <;> rfl

theorem ofTopic?_eq_some_iff {t : Word} {kind : EventKind} :
    ofTopic? t = some kind ↔ t = kind.topic := by
  constructor
  · intro found
    have holds := List.find?_some found
    exact (of_decide_eq_true holds).symm
  · rintro rfl
    cases kind <;> decide

end EventKind


/-- Parameters with the numbers that stand in their places. -/
abbrev Arguments := List (Parameter × Nat)

namespace Arguments

def number? (args : Arguments) (member : String) : Option Nat :=
  (args.find? (·.1.member = member)).map (·.2)

def account? (args : Arguments) (member : String) : Option Address :=
  (args.number? member).map .ofNat

end Arguments

namespace Log

/-- The log's first topic is that of the event. -/
def Announces (log : Log) (kind : EventKind) : Prop :=
  log.topics.head? = some kind.signatureHash

/-- The arguments from a topic and from an offset in the data on. -/
def argumentsFrom (log : Log) : List Parameter → (topic offset : Nat) → Arguments
  | [], _, _ => []
  | p :: ps, topic, offset =>
    if p.indexed then
      (p, (log.topics.getD topic (.ofNat 0)).toNat) :: log.argumentsFrom ps (topic + 1) offset
    else
      (p, bigEndian ((log.data.drop offset).take 32)) :: log.argumentsFrom ps topic (offset + 32)

/-- The arguments of a log of the event; its first topic is none of them. -/
def arguments (log : Log) (kind : EventKind) : Arguments :=
  log.argumentsFrom kind.parameters 1 0

/-- Why the arguments of a log of the event cannot be told. -/
inductive Unfit (log : Log) (kind : EventKind) : DecodeReason → Prop
  | topicCount (few : log.topics.length < 4) : Unfit log kind .topicCount
  | dataTooShort (enough : 4 ≤ log.topics.length) (short : log.data.length < kind.dataSize) :
      Unfit log kind .dataTooShort
  | dataTooLong (enough : 4 ≤ log.topics.length) (long : kind.dataSize < log.data.length) :
      Unfit log kind .dataTooLong

end Log

/-- A deposit of a token that is not registered. -/
def Arguments.OfUnregistered (args : Arguments) (kind : EventKind) : Prop :=
  kind = .deposit ∧ ∀ asset ∈ Asset.supported, args.account? "deposit_asset" ≠ some asset.address

/-- A request that does not offer the share token of the vault. -/
def Arguments.OffersAnother (args : Arguments) (contracts : Contracts) (kind : EventKind) : Prop :=
  kind = .withdrawalRequested ∧ args.account? "offer_token" ≠ some contracts.vault

namespace EventKind

/-- The parameter that is the account that the event is about. -/
def accountMember : EventKind → String
  | deposit => "receiver"
  | withdrawalRequested | withdrawalCompleted => "user"

/-- The parameter that is the amount that the event is about. -/
def amountMember : EventKind → String
  | deposit => "deposit_amount"
  | withdrawalRequested => "amount"
  | withdrawalCompleted => "want_amount_received"

/-- The parameter that is the token of that amount. -/
def tokenMember : EventKind → String
  | deposit => "deposit_asset"
  | withdrawalRequested => "offer_token"
  | withdrawalCompleted => "want_token"

/-- The parameter that is the token that the account gives. -/
def givenMember : EventKind → String
  | deposit => "deposit_asset"
  | withdrawalRequested | withdrawalCompleted => "offer_token"

end EventKind

/-- What the decoded log tells of the arguments of an event. -/
structure DecodedLog.Tells (decoded : DecodedLog) (contracts : Contracts) (kind : EventKind)
    (args : Arguments) : Prop where
  kind_eq : decoded.payload.kind = kind
  payload : ∀ arg ∈ args, ∃ text, decoded.payload.texts.lookup arg.1.member = some text ∧
    arg.1.type.Shows text arg.2
  wallet : ∃ account, args.account? kind.accountMember = some account ∧
    decoded.wallet = account.checksummed
  amount : ∃ n token, args.number? kind.amountMember = some n ∧
    args.account? kind.tokenMember = some token ∧
      decoded.amount = String.ofList (Amount.format n (Asset.decimalsOf token))
  fromAsset : ∃ token, args.account? kind.givenMember = some token ∧
    decoded.fromAsset = Asset.displayName token
  toAsset : ∃ token, (kind = .deposit → token = contracts.vault) ∧
    (kind ≠ .deposit → args.account? "want_token" = some token) ∧
      decoded.toAsset = Asset.displayName token

/-- The words of an event as arguments, in the order of its parameters. -/
def EventWords.arguments (kind : EventKind) (words : EventWords) : Arguments :=
  kind.parameters.zip
    ((words.first :: words.second :: words.third :: words.data).map Word.toNat)

theorem EventWords.forall_mem_arguments {kind : EventKind} {words : EventWords}
    {shown : Parameter × Nat → Prop}
    (each : List.Forall₂ (fun p n => shown (p, n)) kind.parameters
      ((words.first :: words.second :: words.third :: words.data).map Word.toNat)) :
    ∀ arg ∈ words.arguments kind, shown arg :=
  fun _ member => (List.forall₂_iff_zip.mp each).2 member

namespace Log

variable {contracts : Contracts} {log : Log} {kind : EventKind}

theorem announces_iff :
    log.Announces kind ↔ log.topics.head?.bind EventKind.ofTopic? = some kind := by
  rw [Announces, ← EventKind.topic_eq]
  cases log.topics.head? with
  | none => simp
  | some t => simp [EventKind.ofTopic?_eq_some_iff]

theorem resolve_of_unknown (unknown : ∀ kind, ¬ log.Announces kind) :
    log.resolve contracts = .ok (.skipped .unknownTopic) := by
  simp only [announces_iff] at unknown
  simp only [resolve, Option.eq_none_iff_forall_ne_some.mpr unknown]

theorem resolve_of_foreign (announces : log.Announces kind)
    (foreign : log.address ≠ contracts.emitter kind) :
    log.resolve contracts = .ok (.skipped .unexpectedEmitter) := by
  simp only [resolve, announces_iff.mp announces, foreign, ne_eq, not_false_eq_true, if_true]

theorem resolve_of_fault {reason : DecodeReason} (announces : log.Announces kind)
    (emitted : log.address = contracts.emitter kind) (cut : log.eventWords kind = .error reason) :
    log.resolve contracts = .error ⟨kind, log.txHash, log.logIndex, reason⟩ := by
  simp only [resolve, announces_iff.mp announces, emitted, cut, ne_eq, not_true_eq_false, if_false]

theorem unfit_of_eventWords {reason : DecodeReason} (cut : log.eventWords kind = .error reason) :
    log.Unfit kind reason := by
  unfold eventWords at cut
  rw [← EventKind.dataSize_eq] at cut
  split at cut
  · rename_i topics
    have enough : 4 ≤ log.topics.length := by simp [topics]
    split_ifs at cut with short long
    · cases cut
      exact .dataTooShort enough short
    · cases cut
      exact .dataTooLong enough long
  · rename_i few
    cases cut
    refine .topicCount (Nat.lt_of_not_le fun enough => ?_)
    rcases topics : log.topics with _ | ⟨a, _ | ⟨b, _ | ⟨c, _ | ⟨d, rest⟩⟩⟩⟩
    case cons.cons.cons.cons => exact few a b c d rest topics
    all_goals simp [topics] at enough

theorem arguments_of_eventWords {words : EventWords} (cut : log.eventWords kind = .ok words) :
    log.arguments kind = words.arguments kind := by
  obtain ⟨⟨head, rest, topics⟩, data⟩ := eventWords_eq_ok cut
  have number (bytes : List UInt8) :
      (Word.ofBytes (bytes.take 32)).toNat = bigEndian (bytes.take 32) :=
    Word.toNat_ofBytes (List.length_take_le 32 bytes)
  cases kind <;>
    simp [arguments, argumentsFrom, EventKind.parameters, EventWords.arguments, topics, data,
      EventKind.dataWords, wordsOfData, number, List.drop_drop]

theorem fits_of_eventWords {words : EventWords} (cut : log.eventWords kind = .ok words) :
    4 ≤ log.topics.length ∧ log.data.length = kind.dataSize := by
  obtain ⟨⟨head, rest, topics⟩, -⟩ := eventWords_eq_ok cut
  have enough : 4 ≤ log.topics.length := by simp [topics]
  refine ⟨enough, ?_⟩
  unfold eventWords at cut
  rw [topics, ← EventKind.dataSize_eq] at cut
  dsimp only at cut
  split_ifs at cut with short long
  omega

theorem unfit_iff :
    (∃ reason, log.Unfit kind reason) ↔
      log.topics.length < 4 ∨ log.data.length ≠ kind.dataSize := by
  constructor
  · rintro ⟨-, few | ⟨-, short⟩ | ⟨-, long⟩⟩
    · exact .inl few
    · exact .inr short.ne
    · exact .inr long.ne'
  · intro faulty
    by_cases few : log.topics.length < 4
    · exact ⟨_, .topicCount few⟩
    · have enough := Nat.le_of_not_lt few
      obtain short | long := Nat.lt_or_gt_of_ne (faulty.resolve_left few)
      · exact ⟨_, .dataTooShort enough short⟩
      · exact ⟨_, .dataTooLong enough long⟩

theorem not_unfit {reason : DecodeReason} (enough : 4 ≤ log.topics.length)
    (whole : log.data.length = kind.dataSize) : ¬ log.Unfit kind reason := by
  intro unfit
  obtain few | other := unfit_iff.mp ⟨reason, unfit⟩
  · exact absurd enough (Nat.not_le_of_lt few)
  · exact other whole

/-- What a log of the event is decoded to, if its emitter is the right one. -/
inductive Decodes (contracts : Contracts) (log : Log) (kind : EventKind) :
    Except DecodeFault Resolution → Prop
  | unfit {reason : DecodeReason} (unfit : log.Unfit kind reason) :
      Decodes contracts log kind (.error ⟨kind, log.txHash, log.logIndex, reason⟩)
  | unsupportedDepositAsset (fits : 4 ≤ log.topics.length ∧ log.data.length = kind.dataSize)
      (unregistered : (log.arguments kind).OfUnregistered kind) :
      Decodes contracts log kind (.ok (.skipped .unsupportedDepositAsset))
  | notVaultWithdrawal (fits : 4 ≤ log.topics.length ∧ log.data.length = kind.dataSize)
      (another : (log.arguments kind).OffersAnother contracts kind) :
      Decodes contracts log kind (.ok (.skipped .notVaultWithdrawal))
  | event {decoded : DecodedLog}
      (fits : 4 ≤ log.topics.length ∧ log.data.length = kind.dataSize)
      (registered : ¬ (log.arguments kind).OfUnregistered kind)
      (shares : ¬ (log.arguments kind).OffersAnother contracts kind)
      (tells : decoded.Tells contracts kind (log.arguments kind)) :
      Decodes contracts log kind (.ok (.event decoded))

theorem shows_numeral (w : Word) : ParameterType.uint256.Shows (numeral w) w.toNat := by
  refine ⟨Amount.parseInteger_numeral (toNat_lt w), ?_⟩
  rw [numeral, String.toList_ofList]
  exact Amount.isWhole_numeral w.toNat

/-- The words of a log of the event, with these topics behind the first and these data. -/
def wordsFrom (kind : EventKind) (first second third : Word) (bytes : List UInt8) : EventWords :=
  ⟨first, second, third, wordsOfData kind.dataWords bytes⟩

variable {first second third : Word} {bytes : List UInt8}

variable (contracts) in
theorem tells_ofDeposit {asset : Asset} (registered : Asset.find? third.address = some asset) :
    ∃ decoded, ofDeposit contracts (wordsFrom .deposit first second third bytes) = .event decoded ∧
      decoded.Tells contracts .deposit
        ((wordsFrom .deposit first second third bytes).arguments .deposit) := by
  have symbol : asset.symbol = Asset.displayName third.address := by
    rw [Asset.displayName, registered]
  have decimals : asset.decimals = Asset.decimalsOf third.address := by
    rw [Asset.decimalsOf, registered]
  simp only [ofDeposit, wordsFrom, registered]
  refine ⟨_, rfl, rfl, ?_, ⟨_, rfl, rfl⟩, ⟨_, third.address, rfl, rfl, ?_⟩, ⟨_, rfl, symbol⟩,
    ⟨_, fun _ => rfl, fun other => absurd rfl other, rfl⟩⟩
  · exact EventWords.forall_mem_arguments (.cons ⟨_, rfl, shows_numeral _⟩ (.cons ⟨_, rfl, rfl⟩
      (.cons ⟨_, rfl, rfl⟩ (.cons ⟨_, rfl, shows_numeral _⟩ (.cons ⟨_, rfl, shows_numeral _⟩
      (.cons ⟨_, rfl, shows_numeral _⟩ (.cons ⟨_, rfl, shows_numeral _⟩ .nil)))))))
  · rw [← decimals]
    rfl

theorem tells_ofRequest (shares : second.address = contracts.vault) :
    ∃ decoded, ofRequest contracts (wordsFrom .withdrawalRequested first second third bytes) =
        .event decoded ∧
      decoded.Tells contracts .withdrawalRequested
        ((wordsFrom .withdrawalRequested first second third bytes).arguments
          .withdrawalRequested) := by
  simp only [ofRequest, wordsFrom, shares, ne_eq, not_true_eq_false, if_false]
  refine ⟨_, rfl, rfl, ?_, ⟨_, rfl, rfl⟩, ⟨_, second.address, rfl, rfl, ?_⟩,
    ⟨second.address, rfl, ?_⟩,
    ⟨third.address, fun other => absurd other (by decide), fun _ => rfl, rfl⟩⟩
  · have vault := congrArg Address.checksummed shares.symm
    exact EventWords.forall_mem_arguments (.cons ⟨_, rfl, rfl⟩ (.cons ⟨_, rfl, vault⟩
      (.cons ⟨_, rfl, rfl⟩ (.cons ⟨_, rfl, shows_numeral _⟩ (.cons ⟨_, rfl, shows_numeral _⟩
      (.cons ⟨_, rfl, shows_numeral _⟩ (.cons ⟨_, rfl, shows_numeral _⟩ .nil)))))))
  · rw [shares]
    rfl
  · rw [shares]

variable (contracts first second third bytes) in
theorem tells_ofFulfilment :
    ∃ decoded, ofFulfilment (wordsFrom .withdrawalCompleted first second third bytes) =
        .event decoded ∧
      decoded.Tells contracts .withdrawalCompleted
        ((wordsFrom .withdrawalCompleted first second third bytes).arguments
          .withdrawalCompleted) := by
  refine ⟨_, rfl, rfl, ?_, ⟨_, rfl, rfl⟩, ⟨_, third.address, rfl, rfl, rfl⟩, ⟨_, rfl, rfl⟩,
    ⟨third.address, fun other => absurd other (by decide), fun _ => rfl, rfl⟩⟩
  exact EventWords.forall_mem_arguments (.cons ⟨_, rfl, rfl⟩ (.cons ⟨_, rfl, rfl⟩
    (.cons ⟨_, rfl, rfl⟩ (.cons ⟨_, rfl, shows_numeral _⟩ (.cons ⟨_, rfl, shows_numeral _⟩
    (.cons ⟨_, rfl, shows_numeral _⟩ .nil))))))

theorem not_ofUnregistered {args : Arguments} (other : kind ≠ .deposit) :
    ¬ args.OfUnregistered kind :=
  fun unregistered => other unregistered.1

theorem not_offersAnother {args : Arguments} (other : kind ≠ .withdrawalRequested) :
    ¬ args.OffersAnother contracts kind :=
  fun another => other another.1

theorem decodes_ofDeposit
    (fits : 4 ≤ log.topics.length ∧ log.data.length = EventKind.dataSize .deposit)
    (same : log.arguments .deposit =
      (wordsFrom .deposit first second third bytes).arguments .deposit) :
    Decodes contracts log .deposit
      (.ok (ofDeposit contracts (wordsFrom .deposit first second third bytes))) := by
  have token : (log.arguments .deposit).account? "deposit_asset" = some third.address := by
    rw [same]
    rfl
  cases found : Asset.find? third.address with
  | none =>
      have skipped : ofDeposit contracts (wordsFrom .deposit first second third bytes) =
          .skipped .unsupportedDepositAsset := by
        simp only [ofDeposit, wordsFrom, found]
      rw [skipped]
      refine .unsupportedDepositAsset fits ⟨rfl, ?_⟩
      intro asset member
      have other := List.find?_eq_none.mp found asset member
      rw [token]
      simpa [eq_comm] using other
  | some asset =>
      obtain ⟨decoded, told, tells⟩ := tells_ofDeposit contracts found
      rw [told]
      refine .event fits ?_ (not_offersAnother (by decide)) (same ▸ tells)
      rintro ⟨-, unregistered⟩
      refine unregistered asset (List.mem_of_find?_eq_some found) ?_
      have address := List.find?_some found
      rw [token]
      simpa [eq_comm] using address

theorem decodes_ofRequest
    (fits : 4 ≤ log.topics.length ∧ log.data.length = EventKind.dataSize .withdrawalRequested)
    (same : log.arguments .withdrawalRequested =
      (wordsFrom .withdrawalRequested first second third bytes).arguments .withdrawalRequested) :
    Decodes contracts log .withdrawalRequested
      (.ok (ofRequest contracts (wordsFrom .withdrawalRequested first second third bytes))) := by
  have token : (log.arguments .withdrawalRequested).account? "offer_token" =
      some second.address := by
    rw [same]
    rfl
  by_cases shares : second.address = contracts.vault
  · obtain ⟨decoded, told, tells⟩ := tells_ofRequest shares
    rw [told]
    refine .event fits (not_ofUnregistered (by decide)) ?_ (same ▸ tells)
    rintro ⟨-, another⟩
    exact another (token.trans (congrArg some shares))
  · have skipped : ofRequest contracts (wordsFrom .withdrawalRequested first second third bytes) =
        .skipped .notVaultWithdrawal := by
      simp only [ofRequest, wordsFrom, shares, ne_eq, not_false_eq_true, if_true]
    rw [skipped]
    refine .notVaultWithdrawal fits ⟨rfl, ?_⟩
    rw [token]
    exact fun offered => shares (Option.some.inj offered)

theorem decodes_ofFulfilment
    (fits : 4 ≤ log.topics.length ∧ log.data.length = EventKind.dataSize .withdrawalCompleted)
    (same : log.arguments .withdrawalCompleted =
      (wordsFrom .withdrawalCompleted first second third bytes).arguments .withdrawalCompleted) :
    Decodes contracts log .withdrawalCompleted
      (.ok (ofFulfilment (wordsFrom .withdrawalCompleted first second third bytes))) := by
  obtain ⟨decoded, told, tells⟩ :=
    tells_ofFulfilment contracts first second third bytes
  rw [told]
  exact .event fits (not_ofUnregistered (by decide)) (not_offersAnother (by decide))
    (same ▸ tells)

theorem decodes_ofWords
    (fits : 4 ≤ log.topics.length ∧ log.data.length = kind.dataSize)
    (same : log.arguments kind = (wordsFrom kind first second third bytes).arguments kind) :
    Decodes contracts log kind
      (.ok (ofWords contracts kind (wordsFrom kind first second third bytes))) := by
  cases kind with
  | deposit => exact decodes_ofDeposit fits same
  | withdrawalRequested => exact decodes_ofRequest fits same
  | withdrawalCompleted => exact decodes_ofFulfilment fits same

/-- A log that the right contract has emitted is refused, passed over or decoded. -/
theorem decodes_resolve (announces : log.Announces kind)
    (emitted : log.address = contracts.emitter kind) :
    Decodes contracts log kind (log.resolve contracts) := by
  cases cut : log.eventWords kind with
  | error reason =>
      rw [resolve_of_fault announces emitted cut]
      exact .unfit (unfit_of_eventWords cut)
  | ok words =>
      have fits := fits_of_eventWords cut
      have same := arguments_of_eventWords cut
      rw [resolve_of_words (announces_iff.mp announces) emitted cut]
      obtain ⟨first, second, third, data⟩ := words
      obtain rfl : data = wordsOfData kind.dataWords log.data := (eventWords_eq_ok cut).2
      exact decodes_ofWords fits same

namespace Decodes

variable {result : Except DecodeFault Resolution}

theorem error_iff (decodes : Decodes contracts log kind result) :
    (∃ fault, result = .error fault) ↔
      log.topics.length < 4 ∨ log.data.length ≠ kind.dataSize := by
  cases decodes with
  | unfit unfit => exact ⟨fun _ => unfit_iff.mp ⟨_, unfit⟩, fun _ => ⟨_, rfl⟩⟩
  | unsupportedDepositAsset fits | notVaultWithdrawal fits | event fits =>
      constructor
      · rintro ⟨fault, failed⟩
        cases failed
      · rintro (few | other)
        · exact absurd fits.1 (Nat.not_le_of_lt few)
        · exact absurd fits.2 other

theorem fault_eq {fault : DecodeFault} (decodes : Decodes contracts log kind (.error fault)) :
    fault = ⟨kind, log.txHash, log.logIndex, fault.reason⟩ ∧ log.Unfit kind fault.reason := by
  cases decodes with
  | unfit unfit => exact ⟨rfl, unfit⟩

variable (enough : 4 ≤ log.topics.length) (whole : log.data.length = kind.dataSize)
include enough whole

theorem unsupported_iff (decodes : Decodes contracts log kind result) :
    result = .ok (.skipped .unsupportedDepositAsset) ↔
      (log.arguments kind).OfUnregistered kind := by
  cases decodes with
  | unfit unfit => exact absurd unfit (not_unfit enough whole)
  | unsupportedDepositAsset _ unregistered => exact iff_of_true rfl unregistered
  | notVaultWithdrawal _ another =>
      refine iff_of_false nofun (not_ofUnregistered ?_)
      rw [another.1]
      decide
  | event _ registered => exact iff_of_false nofun registered

theorem another_iff (decodes : Decodes contracts log kind result) :
    result = .ok (.skipped .notVaultWithdrawal) ↔
      (log.arguments kind).OffersAnother contracts kind := by
  cases decodes with
  | unfit unfit => exact absurd unfit (not_unfit enough whole)
  | unsupportedDepositAsset _ unregistered =>
      refine iff_of_false nofun (not_offersAnother ?_)
      rw [unregistered.1]
      decide
  | notVaultWithdrawal _ another => exact iff_of_true rfl another
  | event _ _ shares => exact iff_of_false nofun shares

theorem exists_event (decodes : Decodes contracts log kind result)
    (registered : ¬ (log.arguments kind).OfUnregistered kind)
    (shares : ¬ (log.arguments kind).OffersAnother contracts kind) :
    ∃ decoded, result = .ok (.event decoded) ∧
      decoded.Tells contracts kind (log.arguments kind) := by
  cases decodes with
  | unfit unfit => exact absurd unfit (not_unfit enough whole)
  | unsupportedDepositAsset _ unregistered => exact absurd unregistered registered
  | notVaultWithdrawal _ another => exact absurd another shares
  | event _ _ _ tells => exact ⟨_, rfl, tells⟩

end Decodes

theorem resolve_ne_unknown (announces : log.Announces kind) :
    log.resolve contracts ≠ .ok (.skipped .unknownTopic) := by
  intro unknown
  by_cases emitted : log.address = contracts.emitter kind
  · have decodes := decodes_resolve announces emitted
    rw [unknown] at decodes
    cases decodes
  · rw [resolve_of_foreign announces emitted] at unknown
    cases unknown

theorem resolve_ne_foreign (announces : log.Announces kind)
    (emitted : log.address = contracts.emitter kind) :
    log.resolve contracts ≠ .ok (.skipped .unexpectedEmitter) := by
  intro foreign
  have decodes := decodes_resolve announces emitted
  rw [foreign] at decodes
  cases decodes

/-- Decoding by the first topic, the emitter, the sizes and what stands in the places of the
event's parameters, in this order. -/
theorem resolve_exact (contracts : Contracts) (log : Log) :
    (log.resolve contracts = .ok (.skipped .unknownTopic) ↔ ∀ kind, ¬ log.Announces kind) ∧
    ∀ kind, log.Announces kind →
      (log.resolve contracts = .ok (.skipped .unexpectedEmitter) ↔
        log.address ≠ contracts.emitter kind) ∧
      (log.address = contracts.emitter kind →
        ((∃ fault, log.resolve contracts = .error fault) ↔
          log.topics.length < 4 ∨ log.data.length ≠ kind.dataSize) ∧
        (∀ fault, log.resolve contracts = .error fault →
          fault = ⟨kind, log.txHash, log.logIndex, fault.reason⟩ ∧ log.Unfit kind fault.reason) ∧
        (4 ≤ log.topics.length → log.data.length = kind.dataSize →
          (log.resolve contracts = .ok (.skipped .unsupportedDepositAsset) ↔
            (log.arguments kind).OfUnregistered kind) ∧
          (log.resolve contracts = .ok (.skipped .notVaultWithdrawal) ↔
            (log.arguments kind).OffersAnother contracts kind) ∧
          (¬ (log.arguments kind).OfUnregistered kind →
            ¬ (log.arguments kind).OffersAnother contracts kind →
              ∃ decoded, log.resolve contracts = .ok (.event decoded) ∧
                decoded.Tells contracts kind (log.arguments kind)))) := by
  refine ⟨⟨fun unknown kind announces => resolve_ne_unknown announces unknown, resolve_of_unknown⟩,
    fun kind announces => ⟨⟨fun foreign emitted => resolve_ne_foreign announces emitted foreign,
      resolve_of_foreign announces⟩, fun emitted => ?_⟩⟩
  have decodes := decodes_resolve announces emitted
  refine ⟨decodes.error_iff, ?_, fun enough whole => ⟨decodes.unsupported_iff enough whole,
    decodes.another_iff enough whole, decodes.exists_event enough whole⟩⟩
  intro fault failed
  rw [failed] at decodes
  exact decodes.fault_eq

end Log

end VaultTransfers
