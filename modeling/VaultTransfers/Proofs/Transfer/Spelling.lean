import VaultTransfers.Proofs.Http.Serving
import VaultTransfers.Proofs.Transfer.Decoding

/-!
One spelling for the bytes of addresses and hashes. What people type is accepted
if it is `0x` and as many hexadecimal digits as the bytes need, in any letter
case; what is made of it depends on the bytes alone, tells them, is accepted
itself, and is what the decoder of logs writes for the same bytes. The letter case
of an address is a checksum of its bytes; that the bytes are told holds whatever
the checksum is.
-/

namespace VaultTransfers

theorem bigEndian_inj {bytes bytes' : List UInt8} (length : bytes.length = bytes'.length)
    (same : bigEndian bytes = bigEndian bytes') : bytes = bytes' := by
  induction bytes generalizing bytes' with
  | nil => exact (List.length_eq_zero_iff.mp length.symm).symm
  | cons b bs ih =>
      cases bytes' with
      | nil => cases length
      | cons c cs =>
          have length : bs.length = cs.length := Nat.succ.inj length
          rw [bigEndian, bigEndian, ← length, Nat.mul_comm, Nat.mul_comm c.toNat] at same
          obtain ⟨head, tail⟩ := Amount.eq_of_mul_add_eq (bigEndian_lt bs)
            (length ▸ bigEndian_lt cs) same
          rw [UInt8.toNat_inj.mp head, ih length tail]

def Address.ofBytes (bytes : List UInt8) : Address :=
  ofNat (bigEndian bytes)

theorem Word.ofBytes_eq (bytes : List UInt8) : ofBytes bytes = ofNat (bigEndian bytes) := by
  rw [ofBytes, foldl_bytes, Nat.zero_mul, Nat.zero_add]

theorem Address.toNat_ofBytes {bytes : List UInt8} (length : bytes.length = 20) :
    (ofBytes bytes).bits.toNat = bigEndian bytes := by
  have bound := bigEndian_lt bytes
  rw [length] at bound
  exact (BitVec.toNat_ofNat _ _).trans (Nat.mod_eq_of_lt bound)

namespace Text

/-- The text is `0x` and so many hexadecimal digits of either case, between blanks. -/
def IsMarked (text : List Char) (count : Nat) : Prop :=
  ∃ digits, trim text = '0' :: 'x' :: digits ∧ digits.length = count ∧
    ∀ c ∈ digits, isHexDigit c = true

/-- The text is `0x` and two hexadecimal digits for each of the bytes, between blanks. -/
def Denotes (text : List Char) (bytes : List UInt8) : Prop :=
  ∃ digits, trim text = '0' :: 'x' :: digits ∧ digits.length = 2 * bytes.length ∧
    (∀ c ∈ digits, isHexDigit c = true) ∧ hexPairs digits = bytes

theorem Denotes.unique {text : List Char} {bytes bytes' : List UInt8} (first : Denotes text bytes)
    (second : Denotes text bytes') : bytes = bytes' := by
  obtain ⟨digits, spelled, -, -, rfl⟩ := first
  obtain ⟨digits', spelled', -, -, rfl⟩ := second
  rw [(List.cons.inj (List.cons.inj (spelled.symm.trans spelled')).2).2]

theorem trim_eq_nil_iff {cs : List Char} : trim cs = [] ↔ ∀ c ∈ cs, isBlank c = true := by
  rw [trim, trimEnd, trimStart, List.reverse_eq_nil_iff, List.dropWhile_eq_nil_iff]
  constructor
  · intro behind
    refine List.dropWhile_eq_nil_iff.mp (Decidable.byContradiction fun left => ?_)
    -- the first character that is left is no blank
    have plain := List.head_dropWhile_not isBlank left
    rw [behind _ (List.mem_reverse.mpr (List.head_mem left))] at plain
    cases plain
  · intro blank c member
    exact blank c ((List.dropWhile_sublist isBlank).subset (List.mem_reverse.mp member))

theorem IsMarked.filled {text : List Char} {count : Nat} (marked : IsMarked text count) :
    trim text ≠ [] := by
  obtain ⟨digits, spelled, -, -⟩ := marked
  rw [spelled]
  exact List.cons_ne_nil _ _

theorem hexNumber_append_list (cs ds : List Char) :
    hexNumber (cs ++ ds) = hexNumber cs * Nat.pow 16 ds.length + hexNumber ds := by
  induction ds using List.reverseRecOn with
  | nil => simp [hexNumber]
  | append_singleton ds d ih =>
      have step : Nat.pow 16 (ds ++ [d]).length = 16 * Nat.pow 16 ds.length := by
        rw [List.length_append]
        exact Nat.mul_comm _ _
      rw [← List.append_assoc, hexNumber_append, ih, hexNumber_append, step, Nat.mul_add,
        Nat.mul_left_comm, Nat.add_assoc]

theorem length_hexPairs (digits : List Char) : (hexPairs digits).length = digits.length / 2 := by
  induction digits using hexPairs.induct with
  | case1 high low cs ih =>
      rw [hexPairs, List.length_cons, ih, List.length_cons, List.length_cons]
      omega
  | case2 cs short =>
      rcases cs with _ | ⟨c, _ | ⟨d, cs⟩⟩
      · rfl
      · simp [hexPairs]
      · exact absurd rfl (short c d cs)

/-- Digits in pairs denote the number that the bytes of the pairs do. -/
theorem bigEndian_hexPairs {digits : List Char} {count : Nat} (even : digits.length = 2 * count) :
    bigEndian (hexPairs digits) = hexNumber digits := by
  induction digits using hexPairs.induct generalizing count with
  | case1 high low cs ih =>
      have half : cs.length = 2 * (count - 1) := by
        rw [List.length_cons, List.length_cons] at even
        omega
      have byte : (UInt8.ofNat (hexNumber [high, low])).toNat = hexNumber [high, low] := by
        have bound : hexNumber [high, low] < 256 := hexNumber_lt [high, low]
        rw [UInt8.toNat_ofNat']
        exact Nat.mod_eq_of_lt bound
      have power : Nat.pow 256 (count - 1) = Nat.pow 16 cs.length := by
        rw [half]
        exact (Nat.pow_mul 16 2 (count - 1)).symm
      have length : (hexPairs cs).length = count - 1 := by
        rw [length_hexPairs, half]
        omega
      have split : hexNumber (high :: low :: cs) = _ := hexNumber_append_list [high, low] cs
      rw [hexPairs, bigEndian, ih half, byte, length, power, split]
  | case2 cs short =>
      rcases cs with _ | ⟨c, _ | ⟨d, cs⟩⟩
      · rfl
      · rw [List.length_singleton] at even
        omega
      · exact absurd rfl (short c d cs)

theorem isMarked_iff {text : List Char} {size : Nat} :
    IsMarked text (2 * size) ↔ ∃ bytes, bytes.length = size ∧ Denotes text bytes := by
  constructor
  · rintro ⟨digits, spelled, length, hex⟩
    have half : (hexPairs digits).length = size := by
      rw [length_hexPairs, length]
      omega
    exact ⟨hexPairs digits, half, digits, spelled, by rw [half, length], hex, rfl⟩
  · rintro ⟨bytes, rfl, digits, spelled, length, hex, -⟩
    exact ⟨digits, spelled, length, hex⟩

/-- Digits behind a mark denote the bytes of the number that they denote. -/
theorem denotes_marked {digits : List Char} {bytes : List UInt8}
    (hex : ∀ c ∈ digits, isHexDigit c = true) (length : digits.length = 2 * bytes.length)
    (number : hexNumber digits = bigEndian bytes) : Denotes ('0' :: 'x' :: digits) bytes := by
  have size : (hexPairs digits).length = bytes.length := by
    rw [length_hexPairs, length]
    omega
  have same := (bigEndian_hexPairs length).trans number
  exact ⟨digits, trim_marked hex, length, hex, bigEndian_inj size same⟩

/-- What digits denote hangs on their values alone. -/
theorem hexNumber_congr {cs ds : List Char} (same : cs.map hexValue? = ds.map hexValue?) :
    hexNumber cs = hexNumber ds := by
  have folded (es : List Char) :
      hexNumber es = (es.map hexValue?).foldl (fun n v => 16 * n + v.getD 0) 0 := by
    rw [List.foldl_map]
    rfl
  rw [folded, folded, same]

theorem isHexDigit_of_map_eq {cs ds : List Char} (same : cs.map hexValue? = ds.map hexValue?)
    (hex : ∀ d ∈ ds, isHexDigit d = true) : ∀ c ∈ cs, isHexDigit c = true := by
  intro c member
  have value : hexValue? c ∈ ds.map hexValue? := same ▸ List.mem_map_of_mem member
  obtain ⟨d, among, equal⟩ := List.mem_map.mp value
  rw [isHexDigit, ← equal]
  exact hex d among

theorem hexValue?_toUpper_of_mem_hexDigits {width n : Nat} {c : Char}
    (member : c ∈ hexDigits width n) : hexValue? c.toUpper = hexValue? c := by
  have digit : ∀ d < 16, hexValue? (hexDigit d).toUpper = hexValue? (hexDigit d) := by decide
  induction width generalizing n with
  | zero => exact absurd member List.not_mem_nil
  | succ width ih =>
      rcases List.mem_append.mp member with higher | last
      · exact ih higher
      · rw [List.mem_singleton.mp last]
        exact digit (n % 16) (Nat.mod_lt n (by decide))

end Text

namespace Address

/-- The letter case does not change the values of digits, whatever it is chosen by. -/
theorem map_hexValue?_withCase {digits : List Char}
    (caseless : ∀ c ∈ digits, Text.hexValue? c.toUpper = Text.hexValue? c) (checks : List Char) :
    (withCase digits checks).map Text.hexValue? = digits.map Text.hexValue? := by
  induction digits generalizing checks with
  | nil => rfl
  | cons c cs ih =>
      obtain ⟨here, there⟩ := List.forall_mem_cons.mp caseless
      cases checks with
      | nil => rfl
      | cons k ks =>
          rw [withCase, List.map_cons, List.map_cons, ih there]
          split
          · rw [here]
          · rfl

/-- The checksummed form of an address denotes its bytes. -/
theorem denotes_checksummed {bytes : List UInt8} (length : bytes.length = 20) :
    Text.Denotes (ofBytes bytes).checksummed.toList bytes := by
  have caseless : ∀ c ∈ (ofBytes bytes).digits, Text.hexValue? c.toUpper = Text.hexValue? c :=
    fun c member => Text.hexValue?_toUpper_of_mem_hexDigits member
  have same := map_hexValue?_withCase caseless (ofBytes bytes).caseDigits
  have count : (ofBytes bytes).digits.length = 40 := Text.length_hexDigits 40 _
  have bound : bigEndian bytes < Nat.pow 16 40 :=
    toNat_ofBytes length ▸ (ofBytes bytes).bits.isLt
  rw [checksummed, String.toList_ofList]
  refine Text.denotes_marked ?_ ?_ ?_
  · exact Text.isHexDigit_of_map_eq same fun d member => Text.isHexDigit_of_mem_hexDigits member
  · rw [← List.length_map Text.hexValue?, same, List.length_map, count, length]
  · rw [Text.hexNumber_congr same, digits, Text.hexNumber_hexDigits, toNat_ofBytes length,
      Nat.mod_eq_of_lt bound]

end Address

theorem Word.denotes_text {bytes : List UInt8} (length : bytes.length = 32) :
    Text.Denotes (ofBytes bytes).text.toList bytes := by
  have bound : bigEndian bytes < Nat.pow 16 64 :=
    toNat_ofBytes (Nat.le_of_eq length) ▸ (ofBytes bytes).bits.isLt
  rw [text, String.toList_ofList]
  refine Text.denotes_marked ?_ ?_ ?_
  · exact fun d member => Text.isHexDigit_of_mem_hexDigits member
  · rw [Text.length_hexDigits, length]
  · rw [Text.hexNumber_hexDigits, toNat_ofBytes (Nat.le_of_eq length), Nat.mod_eq_of_lt bound]

namespace Validation

/-- Reads texts that denote so many bytes, and writes these in a spelling. -/
def respell (size : Nat) (absent : Fault) (refusal : String → Fault)
    (spelling : List UInt8 → String) (text : String) : Except Fault String :=
  let trimmed := Text.trim text.toList
  if trimmed = [] then .error absent
  else match markedDigits? (2 * size) trimmed with
    | some digits => .ok (spelling (Text.hexPairs digits))
    | none => .error (refusal text)

/-- A reader brings the texts that denote so many bytes, and no others, to one spelling of the
bytes. Two texts come to the same just if they denote the same, and the spelling comes to itself.
What is refused is reported: blanks as nothing, and any other text as it is. -/
structure Normalises (read : String → Except Fault String) (size : Nat) (absent : Fault)
    (refusal : String → Fault) (spelling : List UInt8 → String) : Prop where
  accepts_iff : ∀ text, (∃ spelled, read text = .ok spelled) ↔
    Text.IsMarked text.toList (2 * size)
  spells : ∀ text bytes, bytes.length = size → Text.Denotes text.toList bytes →
    read text = .ok (spelling bytes)
  same_iff : ∀ text text' spelled spelled', read text = .ok spelled →
    read text' = .ok spelled' →
      (spelled = spelled' ↔
        ∃ bytes, Text.Denotes text.toList bytes ∧ Text.Denotes text'.toList bytes)
  stable : ∀ text spelled, read text = .ok spelled → read spelled = .ok spelled
  absent_iff : ∀ text, read text = .error absent ↔ ∀ c ∈ text.toList, Text.isBlank c = true
  refused_iff : ∀ text, read text = .error (refusal text) ↔
    ¬ Text.IsMarked text.toList (2 * size) ∧ ¬ ∀ c ∈ text.toList, Text.isBlank c = true

section

variable {size : Nat} {absent : Fault} {refusal : String → Fault} {spelling : List UInt8 → String}
  {text spelled : String} {bytes : List UInt8}

theorem respell_of_denotes (length : bytes.length = size)
    (denotes : Text.Denotes text.toList bytes) :
    respell size absent refusal spelling text = .ok (spelling bytes) := by
  have filled := (Text.isMarked_iff.mpr ⟨bytes, length, denotes⟩).filled
  obtain ⟨digits, spelled, count, hex, rfl⟩ := denotes
  have marked : markedDigits? (2 * size) (Text.trim text.toList) = some digits :=
    markedDigits?_eq_some_iff.mpr ⟨spelled, length ▸ count, hex⟩
  simp only [respell, filled, if_false, marked]

theorem respell_of_blank (blank : ∀ c ∈ text.toList, Text.isBlank c = true) :
    respell size absent refusal spelling text = .error absent := by
  simp only [respell, Text.trim_eq_nil_iff.mpr blank, if_true]

theorem respell_of_other (unmarked : ¬ Text.IsMarked text.toList (2 * size))
    (filled : ¬ ∀ c ∈ text.toList, Text.isBlank c = true) :
    respell size absent refusal spelling text = .error (refusal text) := by
  have kept : Text.trim text.toList ≠ [] := mt Text.trim_eq_nil_iff.mp filled
  have none_ : markedDigits? (2 * size) (Text.trim text.toList) = none := by
    refine Option.eq_none_iff_forall_ne_some.mpr fun digits marked => unmarked ?_
    exact ⟨digits, markedDigits?_eq_some_iff.mp marked⟩
  simp only [respell, kept, if_false, none_]

theorem denotes_of_respell (read : respell size absent refusal spelling text = .ok spelled) :
    ∃ bytes, bytes.length = size ∧ Text.Denotes text.toList bytes ∧ spelled = spelling bytes := by
  by_cases marked : Text.IsMarked text.toList (2 * size)
  · obtain ⟨bytes, length, denotes⟩ := Text.isMarked_iff.mp marked
    rw [respell_of_denotes length denotes] at read
    exact ⟨bytes, length, denotes, (Except.ok.inj read).symm⟩
  · by_cases blank : ∀ c ∈ text.toList, Text.isBlank c = true
    · rw [respell_of_blank blank] at read
      cases read
    · rw [respell_of_other marked blank] at read
      cases read

/-- All that is asked of the spelling is that it denotes the bytes. -/
theorem normalises_respell (apart : ∀ text, refusal text ≠ absent)
    (told : ∀ bytes, bytes.length = size → Text.Denotes (spelling bytes).toList bytes) :
    Normalises (respell size absent refusal spelling) size absent refusal spelling where
  accepts_iff text := by
    rw [Text.isMarked_iff]
    constructor
    · rintro ⟨spelled, read⟩
      obtain ⟨bytes, length, denotes, -⟩ := denotes_of_respell read
      exact ⟨bytes, length, denotes⟩
    · rintro ⟨bytes, length, denotes⟩
      exact ⟨spelling bytes, respell_of_denotes length denotes⟩
  spells text bytes length denotes := respell_of_denotes length denotes
  same_iff text text' spelled spelled' read read' := by
    obtain ⟨bytes, length, denotes, rfl⟩ := denotes_of_respell read
    obtain ⟨bytes', length', denotes', rfl⟩ := denotes_of_respell read'
    constructor
    · intro same
      have both := told bytes length
      rw [same] at both
      obtain rfl := both.unique (told bytes' length')
      exact ⟨bytes, denotes, denotes'⟩
    · rintro ⟨common, first, second⟩
      rw [denotes.unique first, denotes'.unique second]
  stable text spelled read := by
    obtain ⟨bytes, length, -, rfl⟩ := denotes_of_respell read
    exact respell_of_denotes length (told bytes length)
  absent_iff text := by
    refine ⟨fun read => ?_, respell_of_blank⟩
    by_contra filled
    by_cases marked : Text.IsMarked text.toList (2 * size)
    · obtain ⟨bytes, length, denotes⟩ := Text.isMarked_iff.mp marked
      rw [respell_of_denotes length denotes] at read
      cases read
    · rw [respell_of_other marked filled] at read
      exact apart text (Except.error.inj read)
  refused_iff text := by
    refine ⟨fun read => ⟨fun marked => ?_, fun blank => ?_⟩,
      fun other => respell_of_other other.1 other.2⟩
    · obtain ⟨bytes, length, denotes⟩ := Text.isMarked_iff.mp marked
      rw [respell_of_denotes length denotes] at read
      cases read
    · rw [respell_of_blank blank] at read
      exact apart text (Except.error.inj read).symm

end

theorem wallet_eq : wallet = respell 20 (.missing "wallet_address") .invalidAddress
    fun bytes => (Address.ofBytes bytes).checksummed := by
  funext text
  unfold wallet respell
  cases marked : markedDigits? 40 (Text.trim text.toList) with
  | none => simp only [Nat.reduceMul, marked]
  | some digits =>
      have even : digits.length = 2 * 20 := (markedDigits?_eq_some_iff.mp marked).2.1
      simp only [Nat.reduceMul, marked, Address.ofBytes, Text.bigEndian_hexPairs even]

theorem txHash_eq : txHash = respell 32 (.missing "tx_hash") .invalidTxHash
    fun bytes => (Word.ofBytes bytes).text := by
  funext text
  unfold txHash respell
  cases marked : markedDigits? 64 (Text.trim text.toList) with
  | none => simp only [Nat.reduceMul, marked]
  | some digits =>
      have even : digits.length = 2 * 32 := (markedDigits?_eq_some_iff.mp marked).2.1
      simp only [Nat.reduceMul, marked, Word.ofBytes_eq, Text.bigEndian_hexPairs even]

theorem normalises_wallet : Normalises wallet 20 (.missing "wallet_address") .invalidAddress
    fun bytes => (Address.ofBytes bytes).checksummed :=
  wallet_eq ▸ normalises_respell nofun fun _ length => Address.denotes_checksummed length

theorem normalises_txHash : Normalises txHash 32 (.missing "tx_hash") .invalidTxHash
    fun bytes => (Word.ofBytes bytes).text :=
  txHash_eq ▸ normalises_respell nofun fun _ length => Word.denotes_text length

theorem wallet_eq_checksummed_iff {text : String} {a : Address} :
    wallet text = .ok a.checksummed ↔
      ∃ bytes, bytes.length = 20 ∧ Text.Denotes text.toList bytes ∧ a = .ofBytes bytes := by
  constructor
  · intro read
    rw [wallet_eq] at read
    obtain ⟨bytes, length, denotes, same⟩ := denotes_of_respell read
    exact ⟨bytes, length, denotes, Address.checksummed_inj same⟩
  · rintro ⟨bytes, length, denotes, rfl⟩
    exact normalises_wallet.spells text bytes length denotes

theorem txHash_eq_text_iff {text : String} {h : Word} :
    txHash text = .ok h.text ↔
      ∃ bytes, bytes.length = 32 ∧ Text.Denotes text.toList bytes ∧ h = .ofBytes bytes := by
  constructor
  · intro read
    rw [txHash_eq] at read
    obtain ⟨bytes, length, denotes, same⟩ := denotes_of_respell read
    exact ⟨bytes, length, denotes, Word.text_inj same⟩
  · rintro ⟨bytes, length, denotes, rfl⟩
    exact normalises_txHash.spells text bytes length denotes

end Validation

namespace Log

variable {contracts : Contracts} {log : Log} {decoded : DecodedLog} {kind : EventKind}

theorem tells_of_resolve (resolved : log.resolve contracts = .ok (.event decoded)) :
    ∃ kind, log.Announces kind ∧ decoded.Tells contracts kind (log.arguments kind) := by
  obtain ⟨kind, words, known, -, -⟩ := words_of_resolve resolved
  have announces := announces_iff.mpr known
  by_cases emitted : log.address = contracts.emitter kind
  · have decodes := decodes_resolve announces emitted
    rw [resolved] at decodes
    cases decodes with
    | event _ _ _ tells => exact ⟨kind, announces, tells⟩
  · rw [resolve_of_foreign announces emitted] at resolved
    cases resolved

/-- The strings of a log's event, among those that people type. -/
structure SpelledAsTyped (log : Log) (kind : EventKind) (e : VaultEvent) : Prop where
  hash : ∀ text, Validation.txHash text = .ok e.txHash ↔
    ∃ bytes, bytes.length = 32 ∧ Text.Denotes text.toList bytes ∧ log.txHash = .ofBytes bytes
  wallet : ∀ text, Validation.wallet text = .ok e.wallet ↔
    ∃ bytes, bytes.length = 20 ∧ Text.Denotes text.toList bytes ∧
      (log.arguments kind).account? kind.accountMember = some (.ofBytes bytes)
  addresses : ∀ arg ∈ log.arguments kind, arg.1.type = .address →
    ∃ shown, e.payload.texts.lookup arg.1.member = some shown ∧
      ∀ text, Validation.wallet text = .ok shown ↔
        ∃ bytes, bytes.length = 20 ∧ Text.Denotes text.toList bytes ∧
          Address.ofNat arg.2 = .ofBytes bytes

theorem spelledAsTyped_toEvent (date : Instant)
    (tells : decoded.Tells contracts kind (log.arguments kind)) :
    SpelledAsTyped log kind (log.toEvent decoded date) where
  hash text := Validation.txHash_eq_text_iff
  wallet text := by
    obtain ⟨account, subject, spelled⟩ := tells.wallet
    rw [toEvent, spelled, Validation.wallet_eq_checksummed_iff, subject]
    simp only [Option.some.injEq]
  addresses arg member address := by
    obtain ⟨shown, found, shows_⟩ := tells.payload arg member
    rw [address] at shows_
    obtain rfl : shown = (Address.ofNat arg.2).checksummed := shows_
    exact ⟨_, found, fun text => Validation.wallet_eq_checksummed_iff⟩

end Log

/-- Addresses and hashes that people type are brought to the spelling of the pipeline: that which
the events of decoded logs have for the same bytes. -/
theorem typed_as_decoded :
    Validation.Normalises Validation.wallet 20 (.missing "wallet_address") .invalidAddress
        (fun bytes => (Address.ofBytes bytes).checksummed) ∧
      Validation.Normalises Validation.txHash 32 (.missing "tx_hash") .invalidTxHash
        (fun bytes => (Word.ofBytes bytes).text) ∧
      ∀ (contracts : Contracts) (log : Log) (decoded : DecodedLog) (date : Instant),
        log.resolve contracts = .ok (.event decoded) →
          ∃ kind, log.Announces kind ∧ log.SpelledAsTyped kind (log.toEvent decoded date) := by
  refine ⟨Validation.normalises_wallet, Validation.normalises_txHash, ?_⟩
  intro contracts log decoded date resolved
  obtain ⟨kind, announces, tells⟩ := Log.tells_of_resolve resolved
  exact ⟨kind, announces, Log.spelledAsTyped_toEvent date tells⟩

end VaultTransfers
