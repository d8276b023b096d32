import VaultTransfers.Proofs.Orders.Mirror
import VaultTransfers.Proofs.Orders.Outcome

/-!
Messages that are applied again, from any point on, to the table that all of
them have left. Each is passed over or writes what is there already, except a
request that the table no longer tells of: it is taken for a new one.
-/

namespace VaultTransfers.Materialize

/-- A request that another has superseded, of a wallet that is left without an open withdrawal;
`later` are the messages behind it. -/
def IsForgotten (m : Message) (later : List Arrival) : Prop :=
  IsSuperseded m (ofWallet m.wallet later) ∧ openRun? (ofWallet m.wallet later) = none

/-- Whether a request among the messages is forgotten at their end. -/
def Forgets : List Arrival → Prop
  | [] => False
  | a :: as => IsForgotten a.message as ∨ Forgets as

/-- The messages are all taken, and the table stays as it is. -/
def Absorbs (table : OrderTable) (as : List Arrival) : Prop :=
  (∀ r ∈ (applyAll as table).1, ∃ applied, r = .ok applied) ∧ (applyAll as table).2 = table

theorem ofWallet_split (before later : List Arrival) (a : Arrival) :
    ofWallet a.message.wallet (before ++ a :: later) =
      ofWallet a.message.wallet before ++ a :: ofWallet a.message.wallet later := by
  simp [ofWallet]

section

variable {table : OrderTable} {before later : List Arrival} {a b : Arrival} {o : Order}

theorem Mirrors.byKey_eq {as : List Arrival} (mirrors : Mirrors table as) (history : History as)
    (member : o ∈ table.orders) : table.byKey o.key = some o := by
  have found : (table.byKey o.key).isSome = true := by
    rw [OrderTable.byKey, List.find?_isSome]
    exact ⟨o, member, by simp⟩
  obtain ⟨p, byKey⟩ := Option.isSome_iff_exists.mp found
  have same : p.key = o.key := by simpa using List.find?_some byKey
  rw [byKey, mirrors.eq_of_key history (List.mem_of_find?_eq_some byKey) member same]

theorem Mirrors.update_self {as : List Arrival} (mirrors : Mirrors table as) (history : History as)
    (member : o ∈ table.orders) : table.update o = (.ok (), table) := by
  rw [OrderTable.update, Store.changeFirst_eq_self]
  · exact mirrors.write_eq
  · intro p among same
    exact (mirrors.eq_of_id history among member (of_decide_eq_true same)).symm

theorem Mirrors.upsert_self {as : List Arrival} (mirrors : Mirrors table as) (history : History as)
    (member : o ∈ table.orders) (fresh : OrderId) :
    table.upsert { o with id := fresh } = (.ok (), table) := by
  have found : (table.orders.any fun p => p.key = o.key) = true :=
    List.any_eq_true.mpr ⟨o, member, by simp⟩
  have kept : Store.changeOrAdd (fun p => p.key = o.key) (fun p => { o with id := p.id })
      { o with id := fresh } table.orders = table.orders := by
    rw [Store.changeOrAdd, if_pos found, Store.changeFirst_eq_self]
    intro p among same
    rw [mirrors.eq_of_key history among member (of_decide_eq_true same)]
  have written : table.upsert { o with id := fresh } = table.write table.orders :=
    congrArg (OrderTable.write · table) kept
  rw [written]
  exact mirrors.write_eq

theorem Mirrors.byKey_eq_none_of_superseded (mirrors : Mirrors table (before ++ a :: later))
    (history : History (before ++ a :: later))
    (superseded : IsSuperseded a.message (ofWallet a.message.wallet later)) :
    table.byKey a.message.key = none := by
  rw [OrderTable.byKey, List.find?_eq_none]
  intro o member same
  have named : o.key = a.message.key := of_decide_eq_true same
  obtain ⟨c, among, key, wallet⟩ := mirrors.key_of_mem member
  obtain rfl : c = a := history.eq_of_key among (by simp) (key.symm.trans named)
  have row := mirrors.mem_iff.mp member
  have distinct := history.ofWallet_keys c.message.wallet
  rw [← wallet, ofWallet_split] at row
  rw [ofWallet_split] at distinct
  exact key_not_mem_of_superseded distinct superseded o row named

theorem before_of_superseded (history : History (before ++ a :: later)) {first : Arrival}
    {last : Message} (superseded : IsSuperseded a.message (ofWallet a.message.wallet later))
    (run : openRun? (ofWallet a.message.wallet (before ++ a :: later)) = some (first, last)) :
    a.message.position.before last.position = true := by
  obtain ⟨-, next, found, -⟩ := superseded
  rw [ofWallet_split, List.append_cons] at run
  have lasts := last_openRun?_append (ofWallet a.message.wallet before ++ [a]) found
  rw [run] at lasts
  obtain ⟨⟨first', last'⟩, run', same⟩ := Option.map_eq_some_iff.mp lasts.symm
  obtain rfl : last' = last := same
  obtain ⟨c, among, rfl⟩ := lastOfRun?_mem run'
  obtain ⟨behind, wallet⟩ := mem_ofWallet.mp among
  have chain := (List.pairwise_append.mp history.chain).2.1
  exact (List.pairwise_cons.mp chain).1 c behind wallet.symm

theorem settle_replayed_deposit (mirrors : Mirrors table (before ++ a :: later))
    (history : History (before ++ a :: later)) (same : b.message = a.message)
    (deposit : a.message.kind = .deposit) : settle b table = (.ok .depositRecorded, table) := by
  have sound : b.message.IsSound := same ▸ history.sound a (by simp)
  have row : depositRow a ∈ table.orders :=
    mirrors.mem_of_mem_reconstruct (w := a.message.wallet)
      (depositRow_mem_reconstruct (mem_ofWallet.mpr ⟨by simp, rfl⟩) deposit)
  have written := mirrors.upsert_self history row b.fresh
  rw [settle, verdict_of_isSound sound, same, deposit]
  simp only [depositVerdict, Verdict.carryOut, OrderTable.answer, same]
  have order : orderOf b.fresh a.message .deposit .completed none =
      { depositRow a with id := b.fresh } := rfl
  rw [order, written]

theorem settle_replayed_fulfilment (mirrors : Mirrors table (before ++ a :: later))
    (history : History (before ++ a :: later)) (same : b.message = a.message)
    (fulfilment : a.message.kind = .withdrawalCompleted) :
    settle b table = (.ok .completionIgnored, table) := by
  have sound : b.message.IsSound := same ▸ history.sound a (by simp)
  obtain ⟨o, row, completed⟩ := exists_isCompletedBy
    (mem_ofWallet (w := a.message.wallet).mpr ⟨List.mem_append_right before List.mem_cons_self, rfl⟩)
    fulfilment
  have known : (table.byCompletion a.message.key).isSome = true := by
    rw [OrderTable.byCompletion, List.find?_isSome]
    exact ⟨o, mirrors.mem_of_mem_reconstruct row, completed⟩
  rw [settle, verdict_of_isSound sound, same, fulfilment]
  simp only [fulfilmentVerdict, Verdict.carryOut, same, known, Bool.true_or, if_true]

/-- A request that still has a row, or a later one that is open, is absorbed. -/
theorem settle_replayed_request (mirrors : Mirrors table (before ++ a :: later))
    (history : History (before ++ a :: later)) (same : b.message = a.message)
    (request : a.message.kind = .withdrawalRequested) (kept : ¬ IsForgotten a.message later) :
    ∃ applied, settle b table = (.ok applied, table) := by
  have sound : b.message.IsSound := same ▸ history.sound a (by simp)
  rw [settle, verdict_of_isSound sound, same, request]
  simp only [requestVerdict, same]
  cases next : nextWithdrawal? (ofWallet a.message.wallet later) with
  | none =>
      obtain ⟨first, run⟩ :=
        openRun?_of_last (ofWallet a.message.wallet before) request next
      have row : withdrawalRow first a.message none ∈ table.orders := by
        apply mirrors.mem_of_mem_reconstruct (w := a.message.wallet)
        rw [ofWallet_split]
        exact mem_of_openRun? run
      have found : table.byKey a.message.key = some (withdrawalRow first a.message none) :=
        mirrors.byKey_eq history row
      have open_ : (withdrawalRow first a.message none).status ≠ .completed := by
        simp [withdrawalRow]
      have written := mirrors.update_self history row
      refine ⟨.requestRevised, ?_⟩
      have unchanged : revised (withdrawalRow first a.message none) a.message a.message.quote =
          withdrawalRow first a.message none := rfl
      simp only [found, if_neg open_, Verdict.carryOut, OrderTable.answer, unchanged, written]
  | some m =>
      have superseding : m.kind ≠ .deposit := by
        obtain ⟨_, _, _, _, _, _, withdrawal⟩ := split_of_nextWithdrawal?_some next
        exact withdrawal
      cases kind : m.kind with
      | deposit => exact absurd kind superseding
      | withdrawalCompleted =>
          obtain ⟨o, among, key, completed⟩ := exists_completed_of_fulfilled
            (ofWallet a.message.wallet before) request next kind
          rw [← ofWallet_split] at among
          have found := mirrors.byKey_eq history (mirrors.mem_of_mem_reconstruct among)
          rw [key] at found
          exact ⟨.requestIgnored, by simp only [found, completed, if_true, Verdict.carryOut]⟩
      | withdrawalRequested =>
          have superseded : IsSuperseded a.message (ofWallet a.message.wallet later) :=
            ⟨request, m, next, kind⟩
          have absent := mirrors.byKey_eq_none_of_superseded history superseded
          have lasts := last_openRun?_append (ofWallet a.message.wallet before ++ [a]) next
          rw [← List.append_cons, ← ofWallet_split] at lasts
          cases run : openRun? (ofWallet a.message.wallet (before ++ a :: later)) with
          | none =>
              rw [run] at lasts
              exact absurd ⟨superseded, Option.map_eq_none_iff.mp lasts.symm⟩ kept
          | some pair =>
              obtain ⟨first, last⟩ := pair
              have earlier : a.message.position.before (withdrawalRow first last none).position
                  = true :=
                before_of_superseded history superseded run
              refine ⟨.requestIgnored, ?_⟩
              simp only [absent, mirrors.openIn_eq, mirrors.openOf_eq, run, Option.map_some,
                earlier, if_true, Verdict.carryOut]

/-- What comes again of messages is absorbed, but for a forgotten request. -/
theorem settle_replayed (mirrors : Mirrors table (before ++ a :: later))
    (history : History (before ++ a :: later)) (same : b.message = a.message)
    (kept : ¬ IsForgotten a.message later) : ∃ applied, settle b table = (.ok applied, table) := by
  cases kind : a.message.kind with
  | deposit => exact ⟨_, settle_replayed_deposit mirrors history same kind⟩
  | withdrawalRequested => exact settle_replayed_request mirrors history same kind kept
  | withdrawalCompleted => exact ⟨_, settle_replayed_fulfilment mirrors history same kind⟩

/-- A forgotten request opens a withdrawal. -/
theorem settle_forgotten (mirrors : Mirrors table (before ++ a :: later))
    (history : History (before ++ a :: later)) (same : b.message = a.message)
    (forgotten : IsForgotten a.message later) :
    settle b table =
      (.ok .requestOpened, ⟨table.orders ++ [withdrawalRow b b.message none]⟩) := by
  obtain ⟨superseded, stopped⟩ := forgotten
  have sound : b.message.IsSound := same ▸ history.sound a (by simp)
  have absent := mirrors.byKey_eq_none_of_superseded history superseded
  obtain ⟨request, next, found, -⟩ := id superseded
  have lasts := last_openRun?_append (ofWallet a.message.wallet before ++ [a]) found
  rw [← List.append_cons, ← ofWallet_split, stopped, Option.map_none,
    Option.map_eq_none_iff] at lasts
  have row : orderOf b.fresh b.message .withdrawal .inProgress b.message.quote =
      withdrawalRow b b.message none := rfl
  have single : OrderTable.secondOpen? [] (table.orders ++ [withdrawalRow b b.message none]) =
      none := by
    apply secondOpen?_eq_none
    intro w
    rw [if_neg List.not_mem_nil, List.filter_append, List.length_append, mirrors.filter_isOpenOf]
    by_cases wallet : a.message.wallet = w
    · subst wallet
      rw [lasts, Option.map_none, Option.toList_none, List.length_nil, Nat.zero_add]
      exact List.length_filter_le ..
    · have other : (withdrawalRow b b.message none).isOpenOf w = false := by
        simp [Order.isOpenOf, withdrawalRow, same, wallet]
      rw [List.filter_cons_of_neg (by simp [other]), List.filter_nil, ← mirrors.filter_isOpenOf]
      exact mirrors.length_filter_isOpenOf w
  have added : table.upsert (withdrawalRow b b.message none) =
      (.ok (), ⟨table.orders ++ [withdrawalRow b b.message none]⟩) := by
    rw [OrderTable.upsert, Store.changeOrAdd, if_neg, OrderTable.write, single]
    intro known
    obtain ⟨o, member, key⟩ := List.any_eq_true.mp known
    have named : o.key = b.message.key := of_decide_eq_true key
    rw [OrderTable.byKey, List.find?_eq_none] at absent
    exact absent o member (by simp [named, same])
  rw [settle, verdict_of_isSound sound]
  simp only [same, request, requestVerdict, absent, mirrors.openIn_eq, mirrors.openOf_eq, lasts,
    Option.map_none, Verdict.carryOut, OrderTable.answer]
  rw [← same, row, added]

end

theorem length_write_le {orders : List Order} {table : OrderTable}
    (grown : table.orders.length ≤ orders.length) :
    table.orders.length ≤ (table.write orders).2.orders.length := by
  unfold OrderTable.write
  split
  · exact Nat.le_refl _
  · exact grown

theorem length_answer_le (c : OrderTable.Call) (table : OrderTable) :
    table.orders.length ≤ (OrderTable.answer c table).2.orders.length := by
  cases c with
  | upsert o =>
      apply length_write_le
      unfold Store.changeOrAdd
      split
      · exact Nat.le_of_eq (Store.length_changeFirst _).symm
      · simp
  | update o =>
      apply length_write_le
      exact Nat.le_of_eq (Store.length_changeFirst _).symm
  | byKey k => exact Nat.le_refl _
  | byCompletion k => exact Nat.le_refl _
  | openOf wallet => exact Nat.le_refl _
  | openOfAmount wallet amount => exact Nat.le_refl _
  | byTransaction txHash => exact Nat.le_refl _

theorem length_carryOut_le (v : Verdict) (table : OrderTable) :
    table.orders.length ≤ (v.carryOut table).2.orders.length := by
  obtain ⟨applied, write⟩ := v
  cases write with
  | none => exact Nat.le_refl _
  | some c =>
      have grown := length_answer_le c table
      obtain ⟨reply, after, answered⟩ : ∃ reply after, OrderTable.answer c table = (reply, after) :=
        ⟨_, _, rfl⟩
      rw [answered] at grown
      simp only [Verdict.carryOut, answered]
      cases reply with
      | ok _ => exact grown
      | error fault => exact grown

theorem length_settle_le (a : Arrival) (table : OrderTable) :
    table.orders.length ≤ (settle a table).2.orders.length := by
  unfold settle
  cases verdict a table with
  | error fault => exact Nat.le_refl _
  | ok v => exact length_carryOut_le v table

theorem length_applyAll_le (as : List Arrival) (table : OrderTable) :
    table.orders.length ≤ (applyAll as table).2.orders.length := by
  induction as generalizing table with
  | nil => exact Nat.le_refl _
  | cons a as ih =>
      rw [applyAll_cons]
      exact Nat.le_trans (length_settle_le a table) (ih _)

/-- Of the messages `rest` that end a history, those that come again are absorbed unless one of
them is forgotten. -/
theorem absorbs_iff_of_suffix {table : OrderTable} {before rest replayed : List Arrival}
    (mirrors : Mirrors table (before ++ rest)) (history : History (before ++ rest))
    (same : replayed.map (·.message) = rest.map (·.message)) :
    Absorbs table replayed ↔ ¬ Forgets rest := by
  induction rest generalizing before replayed with
  | nil =>
      obtain rfl : replayed = [] := List.map_eq_nil_iff.mp same
      constructor
      · intro _ forgets
        exact forgets
      · intro _
        exact ⟨fun r member => absurd member List.not_mem_nil, rfl⟩
  | cons a rest ih =>
      obtain ⟨b, others, rfl, here, there⟩ := List.map_eq_cons_iff.mp same
      have shifted : before ++ a :: rest = before ++ [a] ++ rest := by simp
      have tail : Absorbs table others ↔ ¬ Forgets rest :=
        ih (shifted ▸ mirrors) (shifted ▸ history) there
      by_cases forgotten : IsForgotten a.message rest
      · -- the table has grown by a row, and no later message takes it away
        constructor
        · rintro ⟨-, unchanged⟩
          have grown := length_applyAll_le others (settle b table).2
          rw [applyAll_cons] at unchanged
          have final : (applyAll others (settle b table).2).2 = table := unchanged
          rw [final, settle_forgotten mirrors history here forgotten, List.length_append] at grown
          exact absurd grown (Nat.not_succ_le_self _)
        · intro remembers
          exact absurd (.inl forgotten) remembers
      · obtain ⟨applied, settled⟩ := settle_replayed mirrors history here forgotten
        have head : Absorbs table (b :: others) ↔ Absorbs table others := by
          unfold Absorbs
          rw [applyAll_cons, settled]
          simp
        rw [head, tail, Forgets, not_or]
        exact ⟨fun remembers => ⟨forgotten, remembers⟩, fun remembers => remembers.2⟩

/-- Messages that come again from any point on, under new identities, are absorbed if and only if
none of them is a request that is forgotten by the end. -/
theorem replay_absorbed_iff {as : List Arrival} (history : History as) (from_ : Nat)
    {replayed : List Arrival}
    (same : replayed.map (·.message) = (as.drop from_).map (·.message)) :
    Absorbs (applyAll as .empty).2 replayed ↔ ¬ Forgets (as.drop from_) := by
  obtain ⟨answers, after, applied, mirrors⟩ := mirrors_empty.applyAll_eq as history
  rw [List.nil_append, ← List.take_append_drop from_ as] at mirrors
  rw [← List.take_append_drop from_ as] at history
  rw [applied]
  exact absorbs_iff_of_suffix mirrors history same

/-- A request, the request that supersedes it and their fulfilment leave one completed order. When
they come again, the first is opened anew and stays open. -/
theorem superseded_request_reopens :
    let as := [sampleRequest "w" 1, sampleRequest "w" 2, sampleFulfilment "w" 3]
    let replayed := as.map fun a => { a with fresh := ⟨a.fresh.value + 3⟩ }
    let table := (applyAll as .empty).2
    History as ∧ replayed.map (·.message) = as.map (·.message) ∧
      table.orders.countP Order.isOpen = 0 ∧ table.orders.length = 1 ∧
      (applyAll replayed table).2.orders.countP Order.isOpen = 1 ∧
      (applyAll replayed table).2.orders.length = 2 ∧ ¬ Absorbs table replayed := by
  intro as replayed table
  have longer : (applyAll replayed table).2.orders.length = 2 := by decide +kernel
  have before : table.orders.length = 1 := by decide +kernel
  refine ⟨⟨by decide, by decide, ?_, by decide⟩, rfl, by decide +kernel, before, by decide +kernel,
    longer, ?_⟩
  · simp [as, isSound_sampleRequest, isSound_sampleFulfilment]
  · rintro ⟨-, unchanged⟩
    rw [unchanged, before] at longer
    exact absurd longer (by decide)

theorem replay_absorbed_iff_of_revised_request :
    Absorbs (applyAll [sampleRequest "w" 1, sampleRequest "w" 2, sampleFulfilment "w" 3] .empty).2
        [sampleRequest "w" 2, sampleFulfilment "w" 3] ↔
      ¬ Forgets [sampleRequest "w" 2, sampleFulfilment "w" 3] := by
  have history : History [sampleRequest "w" 1, sampleRequest "w" 2, sampleFulfilment "w" 3] := by
    refine ⟨by decide, by decide, ?_, by decide⟩
    simp [isSound_sampleRequest, isSound_sampleFulfilment]
  exact replay_absorbed_iff history 1 rfl

end VaultTransfers.Materialize
