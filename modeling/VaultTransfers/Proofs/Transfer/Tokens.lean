import VaultTransfers.Proofs.Transfer.Quote

/-!
Tokens and the names that they are shown by. The letter case of an address says
nothing that its digits do not say, so different addresses are spelled
differently, whatever the hash behind the case; and no symbol looks like an
address, so different tokens have different names. A log about a withdrawal tells
its tokens both by their names and by their addresses.
-/

namespace VaultTransfers

namespace Text

/-- Written digits are in lower case, which they come back to from upper case. -/
theorem toLower_of_mem_hexDigits {width n : Nat} {c : Char} (member : c ∈ hexDigits width n) :
    c.toLower = c ∧ c.toUpper.toLower = c := by
  have digit : ∀ d < 16, (hexDigit d).toLower = hexDigit d ∧
      (hexDigit d).toUpper.toLower = hexDigit d := by decide
  induction width generalizing n with
  | zero => exact absurd member List.not_mem_nil
  | succ width ih =>
      rcases List.mem_append.mp member with higher | last
      · exact ih higher
      · rw [List.mem_singleton.mp last]
        exact digit (n % 16) (Nat.mod_lt n (by decide))

end Text

namespace Address

theorem map_toLower_withCase {digits : List Char}
    (lower : ∀ c ∈ digits, c.toLower = c ∧ c.toUpper.toLower = c) (checks : List Char) :
    (withCase digits checks).map Char.toLower = digits := by
  have all_lower : ∀ cs : List Char, (∀ c ∈ cs, c.toLower = c ∧ c.toUpper.toLower = c) →
      cs.map Char.toLower = cs := by
    intro cs each
    exact (List.map_congr_left fun c member => (each c member).1).trans (List.map_id' cs)
  induction digits generalizing checks with
  | nil => rfl
  | cons c cs ih =>
      obtain ⟨here, there⟩ := List.forall_mem_cons.mp lower
      cases checks with
      | nil => exact all_lower (c :: cs) lower
      | cons k ks =>
          rw [withCase, List.map_cons, ih there]
          split
          · rw [here.2]
          · rw [here.1]

theorem checksummed_inj {a b : Address} (same : a.checksummed = b.checksummed) : a = b := by
  have spelled := (List.cons.inj (List.cons.inj (String.ofList_injective same)).2).2
  have lowered := congrArg (List.map Char.toLower) spelled
  have lower (c : Address) : ∀ d ∈ c.digits, d.toLower = d ∧ d.toUpper.toLower = d :=
    fun d member => Text.toLower_of_mem_hexDigits member
  rw [map_toLower_withCase (lower a), map_toLower_withCase (lower b)] at lowered
  have number := Text.hexDigits_inj a.bits.isLt b.bits.isLt lowered
  exact congrArg Address.mk (BitVec.eq_of_toNat_eq number)

end Address

namespace Asset

theorem symbol_inj : ∀ x ∈ supported, ∀ y ∈ supported, x.symbol = y.symbol → x = y := by
  decide

theorem symbol_ne_checksummed {x : Asset} (member : x ∈ supported) (a : Address) :
    x.symbol ≠ a.checksummed := by
  have first : ∀ x ∈ supported, x.symbol.toList.head? ≠ some '0' := by decide
  intro same
  refine first x member ?_
  rw [same, Address.checksummed, String.toList_ofList]
  rfl

theorem displayName_cases (a : Address) :
    (∃ x ∈ supported, x.address = a ∧ displayName a = x.symbol) ∨
      displayName a = a.checksummed := by
  unfold displayName find?
  cases found : supported.find? (·.address = a) with
  | some x =>
      exact .inl ⟨x, List.mem_of_find?_eq_some found, by simpa using List.find?_some found, rfl⟩
  | none => exact .inr rfl

theorem displayName_inj {a b : Address} (same : displayName a = displayName b) : a = b := by
  rcases displayName_cases a with ⟨x, x_mem, rfl, x_name⟩ | a_name
  · rcases displayName_cases b with ⟨y, y_mem, rfl, y_name⟩ | b_name
    · rw [x_name, y_name] at same
      rw [symbol_inj x x_mem y y_mem same]
    · rw [x_name, b_name] at same
      exact absurd same (symbol_ne_checksummed x_mem b)
  · rcases displayName_cases b with ⟨y, y_mem, rfl, y_name⟩ | b_name
    · rw [a_name, y_name] at same
      exact absurd same.symm (symbol_ne_checksummed y_mem a)
    · rw [a_name, b_name] at same
      exact Address.checksummed_inj same

theorem displayName_eq_iff {a b : Address} :
    displayName a = displayName b ↔ a.checksummed = b.checksummed :=
  ⟨fun same => by rw [displayName_inj same], fun same => by rw [Address.checksummed_inj same]⟩

end Asset

/-- The tokens that a withdrawal is about, offered and wanted; a deposit offers none. -/
def Payload.tokens? : Payload → Option (String × String)
  | .deposit _ => none
  | .withdrawalRequested request => some (request.offerToken, request.wantToken)
  | .withdrawalCompleted fulfilment => some (fulfilment.offerToken, fulfilment.wantToken)

namespace Log

variable {contracts : Contracts} {log : Log} {decoded : DecodedLog}

theorem resolve_of_words {kind : EventKind} {words : EventWords}
    (known : log.topics.head?.bind EventKind.ofTopic? = some kind)
    (emitted : log.address = contracts.emitter kind) (cut : log.eventWords kind = .ok words) :
    log.resolve contracts = .ok (ofWords contracts kind words) := by
  simp only [resolve, known, emitted, cut, ne_eq, not_true_eq_false, if_false]

/-- A log about a withdrawal names its tokens; a request offers the share token of the vault. -/
theorem tokens_of_resolve (resolved : log.resolve contracts = .ok (.event decoded))
    (withdrawal : decoded.payload.kind ≠ .deposit) :
    ∃ offer want : Address,
      decoded.payload.tokens? = some (offer.checksummed, want.checksummed) ∧
        decoded.fromAsset = Asset.displayName offer ∧ decoded.toAsset = Asset.displayName want ∧
          (decoded.payload.kind = .withdrawalRequested → offer = contracts.vault) := by
  obtain ⟨kind, words, -, -, meaning⟩ := words_of_resolve resolved
  cases kind with
  | deposit =>
      simp only [ofWords, ofDeposit] at meaning
      split at meaning
      · cases meaning
      · rw [← Resolution.event.inj meaning] at withdrawal
        exact absurd rfl withdrawal
  | withdrawalRequested =>
      simp only [ofWords, ofRequest] at meaning
      split at meaning
      · cases meaning
      · rename_i offered
        rw [← Resolution.event.inj meaning]
        exact ⟨words.second.address, words.third.address, rfl, rfl, rfl,
          fun _ => Decidable.not_not.mp offered⟩
  | withdrawalCompleted =>
      rw [← Resolution.event.inj meaning]
      refine ⟨words.second.address, words.third.address, rfl, rfl, rfl, ?_⟩
      intro request
      cases request

end Log

end VaultTransfers
