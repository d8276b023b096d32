import VaultTransfers.Proofs.Amount.Estimate
import VaultTransfers.Transfer.Resolution

/-!
Amounts from a log to an estimate. A request's quote is the product of two words
of its log, in units of 10^-18; it can be told just if it is a number of 256 bits.
-/

namespace VaultTransfers

theorem Asset.decimalsOf_eq (a : Address) : Asset.decimalsOf a = 8 := by
  unfold Asset.decimalsOf
  split
  · rename_i asset found
    have member : asset ∈ Asset.supported := List.mem_of_find?_eq_some found
    simp only [Asset.supported, List.mem_cons, List.not_mem_nil, or_false] at member
    rcases member with rfl | rfl | rfl | rfl <;> rfl
  · rfl

namespace Log

/-- A word of the data. -/
def dataWord (log : Log) (i : Nat) : Word :=
  .ofBytes ((log.data.drop (32 * i)).take 32)

/-- What a request would pay out, in units of 10^-18. -/
def quoted (log : Log) : Nat :=
  (log.dataWord 0).toNat * (log.dataWord 2).toNat * 100

theorem getD_wordsOfData {count i : Nat} (inside : i < count) (bytes : List UInt8) (w : Word) :
    (wordsOfData count bytes).getD i w = .ofBytes ((bytes.drop (32 * i)).take 32) := by
  induction count generalizing i bytes with
  | zero => omega
  | succ count ih =>
      cases i with
      | zero => rfl
      | succ i =>
          have behind : 32 * (i + 1) = 32 + 32 * i := by omega
          rw [wordsOfData, List.getD_cons_succ, ih (by omega), List.drop_drop, behind]

theorem toNat_lt (w : Word) : w.toNat < Amount.bound :=
  w.bits.isLt

theorem words_of_resolve {contracts : Contracts} {log : Log} {decoded : DecodedLog}
    (resolved : log.resolve contracts = .ok (.event decoded)) :
    ∃ kind words, log.topics.head?.bind EventKind.ofTopic? = some kind ∧
      log.eventWords kind = .ok words ∧ ofWords contracts kind words = .event decoded := by
  unfold resolve at resolved
  cases known : log.topics.head?.bind EventKind.ofTopic? with
  | none =>
      simp only [known] at resolved
      cases resolved
  | some kind =>
      simp only [known] at resolved
      split at resolved
      · cases resolved
      · cases cut : log.eventWords kind with
        | error reason =>
            simp only [cut] at resolved
            cases resolved
        | ok words =>
            simp only [cut] at resolved
            exact ⟨kind, words, rfl, cut, Except.ok.inj resolved⟩

theorem eventWords_eq_ok {kind : EventKind} {log : Log} {words : EventWords}
    (cut : log.eventWords kind = .ok words) :
    (∃ head rest, log.topics = head :: words.first :: words.second :: words.third :: rest) ∧
      words.data = wordsOfData kind.dataWords log.data := by
  unfold eventWords at cut
  split at cut
  · rename_i head first second third rest topics
    split_ifs at cut
    cases cut
    exact ⟨⟨head, rest, topics⟩, rfl⟩
  · cases cut

/-- A request has the words of its log for its amount and its price. -/
theorem request_of_resolve {contracts : Contracts} {log : Log} {decoded : DecodedLog}
    {request : WithdrawalRequest} (resolved : log.resolve contracts = .ok (.event decoded))
    (payload : decoded.payload = .withdrawalRequested request) :
    decoded.amount = formatted (log.dataWord 0) 8 ∧ request.minPrice = numeral (log.dataWord 2) := by
  obtain ⟨kind, words, -, cut, meaning⟩ := words_of_resolve resolved
  have data := (eventWords_eq_ok cut).2
  have told : decoded.payload.kind = .withdrawalRequested := congrArg Payload.kind payload
  cases kind with
  | deposit =>
      simp only [ofWords, ofDeposit] at meaning
      split at meaning
      · cases meaning
      · rw [← Resolution.event.inj meaning] at told
        cases told
  | withdrawalRequested =>
      simp only [ofWords, ofRequest] at meaning
      split at meaning
      · cases meaning
      · have same := Resolution.event.inj meaning
        rw [← same] at payload ⊢
        rw [← Payload.withdrawalRequested.inj payload, data, Asset.decimalsOf_eq]
        exact ⟨congrArg (formatted · 8) (getD_wordsOfData (by decide) log.data _),
          congrArg numeral (getD_wordsOfData (by decide) log.data _)⟩
  | withdrawalCompleted =>
      rw [← Resolution.event.inj meaning] at told
      cases told

/-- Whether the quote of a request can be told, which its price of zero would not need. -/
theorem estimate_of_resolve {contracts : Contracts} {log : Log} {decoded : DecodedLog}
    {request : WithdrawalRequest} (resolved : log.resolve contracts = .ok (.event decoded))
    (payload : decoded.payload = .withdrawalRequested request) :
    Amount.estimate decoded.amount request.minPrice =
      if (log.dataWord 2).toNat = 0 then .ok none
      else if log.quoted < Amount.bound then .ok (some (String.ofList (Amount.fixed log.quoted)))
      else .error .overflow := by
  obtain ⟨amount, price⟩ := request_of_resolve resolved payload
  have small := toNat_lt (log.dataWord 0)
  have cheap := toNat_lt (log.dataWord 2)
  rw [amount, price, quoted, formatted, numeral]
  generalize (log.dataWord 0).toNat = value at small ⊢
  generalize (log.dataWord 2).toNat = price at cheap ⊢
  exact Amount.estimate_format small cheap

end Log

end VaultTransfers
