import Mathlib.Data.List.Nodup
import VaultTransfers.Proofs.Codec.Payload
import VaultTransfers.Proofs.Orders.Reconstruction
import VaultTransfers.Proofs.Transfer.Discovery

/-!
The table of orders after messages of many wallets. Its rows are, wallet by
wallet, those that are told from all of the wallet's messages at once. Every
lookup and every write is settled here in a table of that form; what comes of
messages that are applied again is not.
-/

namespace VaultTransfers

theorem Payload.kind_of_ofJson {kind : EventKind} {j : Json} {p : Payload}
    (read : Payload.ofJson kind j = .ok p) : p.kind = kind := by
  cases kind <;> simp only [Payload.ofJson, Except.map] at read
  all_goals
    split at read
    · simp at read
    · cases read
      rfl

namespace Message

theorem kind_of_payload {m : Message} {p : Payload} (read : m.payload = .ok p) : p.kind = m.kind :=
  Payload.kind_of_ofJson read

theorem quote_of_not_request {m : Message} (other : m.kind ≠ .withdrawalRequested) :
    m.quote = none := by
  unfold quote
  split
  · rename_i request read
    exact absurd (kind_of_payload read).symm other
  · rfl

end Message

namespace Materialize

/-- Messages as a source of orders gets them: known by different keys, with a new identity for each,
and those of one wallet in the order of the chain. -/
structure History (as : List Arrival) : Prop where
  keys : (as.map (·.message.key)).Nodup
  identities : (as.map (·.fresh)).Nodup
  sound : ∀ a ∈ as, a.message.IsSound
  chain : as.Pairwise fun a b =>
    a.message.wallet = b.message.wallet → a.message.position.before b.message.position = true

def ofWallet (w : String) (as : List Arrival) : List Arrival :=
  as.filter (·.message.wallet = w)

/-- The table has, for each wallet, the rows of the wallet's messages. -/
def Mirrors (table : OrderTable) (as : List Arrival) : Prop :=
  ∀ w, table.orders.filter (·.wallet = w) = reconstruct false (ofWallet w as)

theorem ofWallet_append (w : String) (as bs : List Arrival) :
    ofWallet w (as ++ bs) = ofWallet w as ++ ofWallet w bs :=
  List.filter_append ..

theorem mem_ofWallet {w : String} {as : List Arrival} {a : Arrival} :
    a ∈ ofWallet w as ↔ a ∈ as ∧ a.message.wallet = w := by
  simp [ofWallet]

theorem ofWallet_singleton (a : Arrival) : ofWallet a.message.wallet [a] = [a] := by
  simp [ofWallet]

theorem ofWallet_singleton_of_ne {w : String} {a : Arrival} (other : a.message.wallet ≠ w) :
    ofWallet w [a] = [] := by
  simp [ofWallet, other]

namespace History

variable {as bs : List Arrival} {a b : Arrival}

theorem left (history : History (as ++ bs)) : History as where
  keys := by
    have keys := history.keys
    rw [List.map_append, List.nodup_append] at keys
    exact keys.1
  identities := by
    have identities := history.identities
    rw [List.map_append, List.nodup_append] at identities
    exact identities.1
  sound := fun a member => history.sound a (List.mem_append_left bs member)
  chain := (List.pairwise_append.mp history.chain).1

theorem ofWallet_keys (history : History as) (w : String) :
    ((ofWallet w as).map (·.message.key)).Nodup :=
  history.keys.sublist (List.filter_sublist.map _)

theorem ofWallet_identities (history : History as) (w : String) :
    ((ofWallet w as).map (·.fresh)).Nodup :=
  history.identities.sublist (List.filter_sublist.map _)

theorem eq_of_key (history : History as) (first : a ∈ as) (second : b ∈ as)
    (same : a.message.key = b.message.key) : a = b :=
  List.inj_on_of_nodup_map history.keys first second same

theorem eq_of_fresh (history : History as) (first : a ∈ as) (second : b ∈ as)
    (same : a.fresh = b.fresh) : a = b :=
  List.inj_on_of_nodup_map history.identities first second same

theorem key_ne_of_mem (history : History (as ++ [b])) (member : a ∈ as) :
    a.message.key ≠ b.message.key := by
  have keys := history.keys
  rw [List.map_append, List.nodup_append] at keys
  exact keys.2.2 _ (List.mem_map_of_mem member) _ (by simp)

theorem before_of_mem (history : History (as ++ [b])) (member : a ∈ ofWallet b.message.wallet as) :
    a.message.position.before b.message.position = true := by
  obtain ⟨among, wallet⟩ := mem_ofWallet.mp member
  exact (List.pairwise_append.mp history.chain).2.2 a among b List.mem_cons_self wallet

end History

theorem mem_of_closing? {as : List Arrival} {m : Message} (closed : closing? as = some m) :
    ∃ a ∈ as, a.message = m ∧ m.kind = .withdrawalCompleted := by
  induction as with
  | nil => simp [closing?] at closed
  | cons a as ih =>
      have later (closed : closing? as = some m) :
          ∃ c ∈ a :: as, c.message = m ∧ m.kind = .withdrawalCompleted := by
        obtain ⟨c, member, same⟩ := ih closed
        exact ⟨c, List.mem_cons_of_mem a member, same⟩
      cases kind : a.message.kind <;> simp only [closing?, kind] at closed
      case withdrawalCompleted =>
        obtain rfl := Option.some.inj closed
        exact ⟨a, List.mem_cons_self, rfl, kind⟩
      all_goals exact later closed

theorem isCompletedBy_withdrawalRow {first : Arrival} {last : Message} {closing? : Option Message}
    {k : EventKey} (completed : (withdrawalRow first last closing?).isCompletedBy k = true) :
    ∃ m, closing? = some m ∧ m.key = k := by
  cases closing? with
  | none => simp [Order.isCompletedBy, withdrawalRow] at completed
  | some m =>
      simp only [Order.isCompletedBy, withdrawalRow, Option.map_some, Bool.and_eq_true,
        decide_eq_true_eq, Option.some.injEq] at completed
      exact ⟨m, rfl, by rw [Message.key, completed.1, completed.2]⟩

theorem completion_of_mem_reconstruct {inRun : Bool} {as : List Arrival} {o : Order} {k : EventKey}
    (member : o ∈ reconstruct inRun as) (completed : o.isCompletedBy k = true) :
    ∃ a ∈ as, a.message.key = k ∧ a.message.kind = .withdrawalCompleted := by
  induction as generalizing inRun with
  | nil => simp [reconstruct] at member
  | cons a as ih =>
      have later {r : Bool} (member : o ∈ reconstruct r as) :
          ∃ c ∈ a :: as, c.message.key = k ∧ c.message.kind = .withdrawalCompleted := by
        obtain ⟨c, among, same⟩ := ih member
        exact ⟨c, List.mem_cons_of_mem a among, same⟩
      cases kind : a.message.kind <;> cases inRun <;>
        simp only [reconstruct, kind, List.mem_cons] at member
      case withdrawalRequested.true | withdrawalCompleted.true => exact later member
      case deposit.true | deposit.false =>
        rcases member with rfl | member
        · simp [Order.isCompletedBy, depositRow] at completed
        · exact later member
      case withdrawalRequested.false =>
        rcases member with rfl | member
        · obtain ⟨m, closed, same⟩ := isCompletedBy_withdrawalRow completed
          obtain ⟨c, among, rfl, fulfilment⟩ := mem_of_closing? closed
          exact ⟨c, List.mem_cons_of_mem a among, same, fulfilment⟩
        · exact later member
      case withdrawalCompleted.false =>
        rcases member with rfl | member
        · obtain ⟨m, closed, same⟩ := isCompletedBy_withdrawalRow completed
          cases closed
          exact ⟨a, List.mem_cons_self, same, kind⟩
        · exact later member

namespace Mirrors

variable {table : OrderTable} {as : List Arrival} {o p : Order} {w : String}

theorem mem_iff (mirrors : Mirrors table as) :
    o ∈ table.orders ↔ o ∈ reconstruct false (ofWallet o.wallet as) := by
  rw [← mirrors o.wallet, List.mem_filter]
  simp

theorem wallet_of_mem (member : o ∈ reconstruct false (ofWallet w as)) : o.wallet = w := by
  obtain ⟨a, among, -, wallet⟩ := origin_of_mem_reconstruct member
  exact wallet.trans (mem_ofWallet.mp among).2

theorem mem_of_mem_reconstruct (mirrors : Mirrors table as)
    (member : o ∈ reconstruct false (ofWallet w as)) : o ∈ table.orders := by
  rw [mirrors.mem_iff, wallet_of_mem member]
  exact member

theorem key_of_mem (mirrors : Mirrors table as) (member : o ∈ table.orders) :
    ∃ a ∈ as, o.key = a.message.key ∧ a.message.wallet = o.wallet := by
  obtain ⟨a, among, key, -⟩ := key_of_mem_reconstruct (mirrors.mem_iff.mp member)
  obtain ⟨a_mem, wallet⟩ := mem_ofWallet.mp among
  exact ⟨a, a_mem, key, wallet⟩

theorem eq_of_key (mirrors : Mirrors table as) (history : History as) (first : o ∈ table.orders)
    (second : p ∈ table.orders) (same : o.key = p.key) : o = p := by
  obtain ⟨a, a_mem, a_key, a_wallet⟩ := mirrors.key_of_mem first
  obtain ⟨b, b_mem, b_key, b_wallet⟩ := mirrors.key_of_mem second
  obtain rfl : a = b := history.eq_of_key a_mem b_mem (by rw [← a_key, ← b_key, same])
  have unique := nodup_keys_reconstruct _ (history.ofWallet_keys o.wallet)
  have other := mirrors.mem_iff.mp second
  rw [← b_wallet, a_wallet] at other
  exact List.inj_on_of_nodup_map unique (mirrors.mem_iff.mp first) other same

theorem eq_of_id (mirrors : Mirrors table as) (history : History as) (first : o ∈ table.orders)
    (second : p ∈ table.orders) (same : o.id = p.id) : o = p := by
  obtain ⟨a, among, a_id, a_wallet⟩ := origin_of_mem_reconstruct (mirrors.mem_iff.mp first)
  obtain ⟨b, b_among, b_id, b_wallet⟩ := origin_of_mem_reconstruct (mirrors.mem_iff.mp second)
  obtain rfl : a = b :=
    history.eq_of_fresh (mem_ofWallet.mp among).1 (mem_ofWallet.mp b_among).1
      (by rw [← a_id, ← b_id, same])
  have unique := (history.ofWallet_identities o.wallet).sublist
    (map_id_reconstruct_sublist false (ofWallet o.wallet as))
  have other := mirrors.mem_iff.mp second
  rw [b_wallet, ← a_wallet] at other
  exact List.inj_on_of_nodup_map unique (mirrors.mem_iff.mp first) other same

theorem filter_isOpenOf (mirrors : Mirrors table as) (w : String) :
    table.orders.filter (·.isOpenOf w) =
      ((openRun? (ofWallet w as)).map fun run => withdrawalRow run.1 run.2 none).toList := by
  rw [← filter_isOpen_reconstruct, ← mirrors w, List.filter_filter]
  congr 1
  funext o
  rw [Order.isOpenOf, Bool.and_comm]

theorem openOf_eq (mirrors : Mirrors table as) (w : String) :
    table.openOf w =
      (openRun? (ofWallet w as)).map fun run => withdrawalRow run.1 run.2 none := by
  rw [OrderTable.openOf, mirrors.filter_isOpenOf]
  cases openRun? (ofWallet w as) with
  | none => rfl
  | some run => rfl

/-- A wallet's only open withdrawal is found by its amount or without it. -/
theorem openIn_eq (mirrors : Mirrors table as) (m : Message) :
    openIn table m = table.openOf m.wallet := by
  have byAmount : table.orders.filter (fun o => o.isOpenOf m.wallet && o.amount = m.amount) =
      (table.orders.filter (·.isOpenOf m.wallet)).filter (·.amount = m.amount) := by
    rw [List.filter_filter]
    congr 1
    funext o
    rw [Bool.and_comm]
  rw [openIn, OrderTable.openOfAmount, byAmount, mirrors.openOf_eq, mirrors.filter_isOpenOf]
  cases openRun? (ofWallet m.wallet as) with
  | none => rfl
  | some run =>
      rw [Option.map_some, Option.toList_some, List.filter_singleton]
      cases decide ((withdrawalRow run.1 run.2 none).amount = m.amount) with
      | true => rfl
      | false => rfl

theorem byKey_eq_none (mirrors : Mirrors table as) {b : Arrival} (history : History (as ++ [b])) :
    table.byKey b.message.key = none := by
  rw [OrderTable.byKey, List.find?_eq_none]
  intro o member same
  obtain ⟨a, among, key, -⟩ := mirrors.key_of_mem member
  exact history.key_ne_of_mem among (key.symm.trans (of_decide_eq_true same))

theorem byCompletion_eq_none (mirrors : Mirrors table as) {b : Arrival}
    (history : History (as ++ [b])) : table.byCompletion b.message.key = none := by
  rw [OrderTable.byCompletion, List.find?_eq_none]
  intro o member completed
  obtain ⟨a, among, key, -⟩ := completion_of_mem_reconstruct (mirrors.mem_iff.mp member) completed
  exact history.key_ne_of_mem (mem_ofWallet.mp among).1 key

theorem length_filter_isOpenOf (mirrors : Mirrors table as) (w : String) :
    (table.orders.filter (·.isOpenOf w)).length ≤ 1 := by
  rw [mirrors.filter_isOpenOf]
  cases openRun? (ofWallet w as) with
  | none => simp
  | some run => simp

end Mirrors

/-- A table is written as long as no wallet would have two open withdrawals. -/
theorem secondOpen?_eq_none {seen : List String} {orders : List Order}
    (single : ∀ w, (orders.filter (·.isOpenOf w)).length ≤ if w ∈ seen then 0 else 1) :
    OrderTable.secondOpen? seen orders = none := by
  induction orders generalizing seen with
  | nil => rfl
  | cons o orders ih =>
      have fewer (w : String) : (orders.filter (·.isOpenOf w)).length ≤
          ((o :: orders).filter (·.isOpenOf w)).length :=
        ((List.sublist_cons_self o orders).filter _).length_le
      cases isOpen : o.isOpen with
      | false =>
          simp only [OrderTable.secondOpen?, isOpen, Bool.false_eq_true, if_false]
          exact ih fun w => Nat.le_trans (fewer w) (single w)
      | true =>
          have mine := single o.wallet
          rw [List.filter_cons_of_pos (by simp [Order.isOpenOf, isOpen]), List.length_cons] at mine
          have unseen : o.wallet ∉ seen := by
            intro member
            rw [if_pos member] at mine
            omega
          rw [if_neg unseen] at mine
          simp only [OrderTable.secondOpen?, isOpen, if_true, List.contains_iff_mem, unseen,
            if_false]
          apply ih
          intro w
          by_cases same : w = o.wallet
          · subst same
            rw [if_pos List.mem_cons_self]
            omega
          · refine Nat.le_trans (fewer w) (Nat.le_trans (single w) ?_)
            simp [same]

namespace Mirrors

variable {table : OrderTable} {as : List Arrival} {o : Order}

theorem write_eq {orders : List Order} (mirrors : Mirrors ⟨orders⟩ as) :
    table.write orders = (.ok (), ⟨orders⟩) := by
  have none_ : OrderTable.secondOpen? [] orders = none :=
    secondOpen?_eq_none fun w => by simpa using mirrors.length_filter_isOpenOf w
  rw [OrderTable.write, none_]

theorem upsert_eq {b : Arrival} (mirrors : Mirrors table as) (history : History (as ++ [b]))
    (starts : b.message.kind = .deposit ∨ openRun? (ofWallet b.message.wallet as) = none) :
    ∃ after, table.upsert (startRow b) = (.ok (), after) ∧ Mirrors after (as ++ [b]) := by
  have wallet : (startRow b).wallet = b.message.wallet := by
    unfold startRow
    cases b.message.kind <;> rfl
  have extended : Mirrors ⟨table.orders ++ [startRow b]⟩ (as ++ [b]) := by
    intro w
    rw [List.filter_append, mirrors w, ofWallet_append]
    by_cases same : b.message.wallet = w
    · subst same
      rw [ofWallet_singleton, reconstruct_append, if_neg]
      · simp [wallet]
      · rintro ⟨withdrawal, isOpen⟩
        rcases starts with deposit | stopped
        · exact withdrawal deposit
        · simp [stopped] at isOpen
    · rw [ofWallet_singleton_of_ne same]
      simp [wallet, same]
  refine ⟨_, ?_, extended⟩
  have absent := mirrors.byKey_eq_none history
  rw [OrderTable.byKey, List.find?_eq_none] at absent
  rw [OrderTable.upsert, Store.changeOrAdd, if_neg, extended.write_eq]
  rintro found
  obtain ⟨o, member, same⟩ := List.any_eq_true.mp found
  rw [key_startRow] at same
  exact absent o member same

theorem update_eq {b first : Arrival} {last : Message} (mirrors : Mirrors table as)
    (history : History (as ++ [b])) (withdrawal : b.message.kind ≠ .deposit)
    (run : openRun? (ofWallet b.message.wallet as) = some (first, last)) :
    ∃ after, table.update (continued b.message (withdrawalRow first last none)) = (.ok (), after) ∧
      Mirrors after (as ++ [b]) := by
  have before := history.left
  have rows := mirrors.filter_isOpenOf b.message.wallet
  rw [run] at rows
  have isRow (o : Order) (member : o ∈ table.orders) :
      o.isOpenOf b.message.wallet = true ↔ o = withdrawalRow first last none := by
    have filtered : o ∈ table.orders.filter (·.isOpenOf b.message.wallet) ↔
        o = withdrawalRow first last none := by
      rw [rows]
      exact List.mem_singleton
    simpa [List.mem_filter, member] using filtered
  have row_mem : withdrawalRow first last none ∈ table.orders :=
    mirrors.mem_of_mem_reconstruct (mem_of_openRun? run)
  have id_continued (o : Order) : (continued b.message o).id = o.id := by
    unfold continued
    cases b.message.kind <;> rfl
  have wallet_continued (o : Order) : (continued b.message o).wallet = o.wallet := by
    unfold continued
    cases b.message.kind <;> rfl
  have changed : Store.changeFirst (fun o => o.id = (continued b.message
        (withdrawalRow first last none)).id)
        (fun _ => continued b.message (withdrawalRow first last none)) table.orders =
      Store.changeFirst (·.isOpenOf b.message.wallet) (continued b.message) table.orders := by
    apply Store.changeFirst_congr
    · intro o member
      rw [id_continued, Bool.eq_iff_iff, decide_eq_true_eq, isRow o member]
      constructor
      · exact mirrors.eq_of_id before member row_mem
      · exact congrArg Order.id
    · intro o member same
      rw [id_continued, decide_eq_true_eq] at same
      rw [mirrors.eq_of_id before member row_mem same]
  have extended : Mirrors ⟨Store.changeFirst (·.isOpenOf b.message.wallet) (continued b.message)
      table.orders⟩ (as ++ [b]) := by
    intro w
    rw [ofWallet_append]
    by_cases same : b.message.wallet = w
    · subst same
      rw [ofWallet_singleton, reconstruct_append, if_pos ⟨withdrawal, by simp [run]⟩,
        ← mirrors b.message.wallet, Store.filter_changeFirst]
      · apply Store.changeFirst_congr
        · intro o member
          simp [Order.isOpenOf, of_decide_eq_true (List.mem_filter.mp member).2]
        · intro o _ _
          rfl
      · intro o _ isOpen
        simp only [Order.isOpenOf, Bool.and_eq_true] at isOpen
        rw [wallet_continued]
        exact ⟨isOpen.1, isOpen.1⟩
    · rw [ofWallet_singleton_of_ne same, List.append_nil, ← mirrors w,
        Store.filter_changeFirst_of_outside]
      intro o _ isOpen
      simp only [Order.isOpenOf, Bool.and_eq_true, decide_eq_true_eq] at isOpen
      rw [wallet_continued, isOpen.1]
      simp [same]
  refine ⟨_, ?_, extended⟩
  rw [OrderTable.update, changed, extended.write_eq]

end Mirrors

theorem verdict_of_isSound {a : Arrival} (sound : a.message.IsSound) (table : OrderTable) :
    verdict a table = .ok
      (match a.message.kind with
      | .deposit => depositVerdict a
      | .withdrawalRequested => requestVerdict a a.message.quote table
      | .withdrawalCompleted => fulfilmentVerdict a table) := by
  unfold Message.IsSound at sound
  unfold verdict Message.quote
  cases read : a.message.payload with
  | error fault =>
      rw [read] at sound
      exact sound.elim
  | ok payload =>
      rw [read] at sound
      have kind := Message.kind_of_payload read
      cases payload with
      | deposit _ => simp [← kind, Payload.kind]
      | withdrawalRequested request =>
          obtain ⟨estimate, computed⟩ := sound
          simp only [← kind, Payload.kind, computed]
          rfl
      | withdrawalCompleted _ => simp [← kind, Payload.kind]

theorem startRow_of_request {a : Arrival} (request : a.message.kind = .withdrawalRequested) :
    startRow a = orderOf a.fresh a.message .withdrawal .inProgress a.message.quote := by
  rw [startRow, request]
  rfl

theorem startRow_of_fulfilment {a : Arrival} (fulfilment : a.message.kind = .withdrawalCompleted) :
    startRow a = closed (orderOf a.fresh a.message .withdrawal .completed none) a.message := by
  have unquoted := Message.quote_of_not_request (m := a.message) (by simp [fulfilment])
  rw [startRow, fulfilment]
  simp [withdrawalRow, closed, orderOf, unquoted]

/-- A further message is taken, and the table has then the rows of all messages. -/
theorem Mirrors.settle_eq {table : OrderTable} {as : List Arrival} {b : Arrival}
    (mirrors : Mirrors table as) (history : History (as ++ [b])) :
    ∃ applied after, settle b table = (.ok applied, after) ∧ Mirrors after (as ++ [b]) := by
  have sound := history.sound b (by simp)
  rw [settle, verdict_of_isSound sound]
  cases kind : b.message.kind with
  | deposit =>
      obtain ⟨after, written, extended⟩ := mirrors.upsert_eq history (.inl kind)
      rw [startRow, kind] at written
      refine ⟨.depositRecorded, after, ?_, extended⟩
      simp only [depositVerdict, Verdict.carryOut, OrderTable.answer]
      exact written ▸ rfl
  | withdrawalRequested =>
      have withdrawal : b.message.kind ≠ .deposit := by simp [kind]
      simp only [requestVerdict, mirrors.byKey_eq_none history, mirrors.openIn_eq,
        mirrors.openOf_eq]
      cases run : openRun? (ofWallet b.message.wallet as) with
      | none =>
          obtain ⟨after, written, extended⟩ := mirrors.upsert_eq history (.inr run)
          rw [startRow_of_request kind] at written
          refine ⟨.requestOpened, after, ?_, extended⟩
          simp only [Option.map_none, Verdict.carryOut, OrderTable.answer, written]
      | some pair =>
          obtain ⟨first, last⟩ := pair
          obtain ⟨after, written, extended⟩ := mirrors.update_eq history withdrawal run
          rw [continued, kind] at written
          refine ⟨.requestRevised, after, ?_, extended⟩
          obtain ⟨a, among, rfl⟩ := lastOfRun?_mem run
          have later : b.message.position.before (withdrawalRow first a.message none).position
              = false :=
            Position.not_before_of_before (history.before_of_mem among)
          simp only [Option.map_some, later, Bool.false_eq_true, if_false, Verdict.carryOut,
            OrderTable.answer, written]
  | withdrawalCompleted =>
      have withdrawal : b.message.kind ≠ .deposit := by simp [kind]
      simp only [fulfilmentVerdict, mirrors.byKey_eq_none history,
        mirrors.byCompletion_eq_none history, mirrors.openOf_eq, Option.isSome_none, Bool.or_self,
        Bool.false_eq_true, if_false]
      cases run : openRun? (ofWallet b.message.wallet as) with
      | none =>
          obtain ⟨after, written, extended⟩ := mirrors.upsert_eq history (.inr run)
          rw [startRow_of_fulfilment kind] at written
          refine ⟨.completionRecorded, after, ?_, extended⟩
          simp only [Option.map_none, Verdict.carryOut, OrderTable.answer, written]
      | some pair =>
          obtain ⟨first, last⟩ := pair
          obtain ⟨after, written, extended⟩ := mirrors.update_eq history withdrawal run
          rw [continued, kind] at written
          refine ⟨.withdrawalCompleted, after, ?_, extended⟩
          simp only [Option.map_some, Verdict.carryOut, OrderTable.answer, written]

theorem mirrors_empty : Mirrors .empty [] := fun _ => rfl

theorem applyAll_cons (a : Arrival) (as : List Arrival) (table : OrderTable) :
    applyAll (a :: as) table =
      ((settle a table).1 :: (applyAll as (settle a table).2).1,
        (applyAll as (settle a table).2).2) := by
  rw [← applyTo_eq_settle]
  rfl

/-- The table follows the messages, however many have come before. -/
theorem Mirrors.applyAll_eq {table : OrderTable} {as : List Arrival} (mirrors : Mirrors table as)
    (bs : List Arrival) (history : History (as ++ bs)) :
    ∃ answers : List Applied, ∃ after,
      applyAll bs table = (answers.map .ok, after) ∧ Mirrors after (as ++ bs) := by
  induction bs generalizing table as with
  | nil => exact ⟨[], table, rfl, by simpa using mirrors⟩
  | cons b bs ih =>
      rw [List.append_cons] at history ⊢
      obtain ⟨applied, next, settled, extended⟩ := mirrors.settle_eq history.left
      obtain ⟨answers, after, rest, final⟩ := ih extended history
      refine ⟨applied :: answers, after, ?_, final⟩
      rw [applyAll_cons, settled, rest, List.map_cons]

theorem ofWallet_eq_self {w : String} {as : List Arrival}
    (alike : ∀ a ∈ as, a.message.wallet = w) : ofWallet w as = as := by
  rw [ofWallet, List.filter_eq_self]
  intro a member
  simp [alike a member]

theorem Mirrors.orders_eq {table : OrderTable} {as : List Arrival} {w : String}
    (mirrors : Mirrors table as) (alike : ∀ a ∈ as, a.message.wallet = w) :
    table.orders = reconstruct false as := by
  have rows := mirrors w
  rw [ofWallet_eq_self alike, List.filter_eq_self.mpr] at rows
  · exact rows
  · intro o member
    obtain ⟨a, among, -, wallet⟩ := mirrors.key_of_mem member
    simp [← wallet, alike a among]

/-- Applied one after the other to no orders, the messages of a wallet in the order of the chain
leave the rows that are told from all of them at once. -/
theorem applyAll_eq_reconstruct {w : String} {as : List Arrival}
    (alike : ∀ a ∈ as, a.message.wallet = w) (sound : ∀ a ∈ as, a.message.IsSound)
    (rising : as.Pairwise fun a b => a.message.position.before b.message.position = true)
    (keys : (as.map (·.message.key)).Nodup) (identities : (as.map (·.fresh)).Nodup) :
    ∃ answers : List Applied,
      applyAll as .empty = (answers.map .ok, ⟨reconstruct false as⟩) := by
  have history : History as :=
    ⟨keys, identities, sound, rising.imp fun before => fun _ => before⟩
  obtain ⟨answers, after, applied, mirrors⟩ := mirrors_empty.applyAll_eq as history
  have rows : after.orders = reconstruct false as := mirrors.orders_eq alike
  exact ⟨answers, by rw [applied, ← rows]⟩

/-- A message about five tokens of a wallet; its block is also its identity. -/
def sampleArrival (wallet : String) (block : Nat) (payload : Payload) : Arrival where
  fresh := ⟨block⟩
  message := .ofEvent
    { txHash := "0x" ++ String.ofList (Nat.toDigits 16 block)
      logIndex := 0
      blockNumber := .ofNat block
      date := .ofUnixMillis 0
      wallet := wallet
      amount := "5"
      fromAsset := "share"
      toAsset := "token"
      payload := payload } (.ofUnixMillis 0)

def sampleRequest (wallet : String) (block : Nat) : Arrival :=
  sampleArrival wallet block
    (.withdrawalRequested ⟨wallet, "share", "token", "5", "0", "100000000", "0"⟩)

def sampleFulfilment (wallet : String) (block : Nat) : Arrival :=
  sampleArrival wallet block (.withdrawalCompleted ⟨wallet, "share", "token", "5", "5", "0"⟩)

theorem isSound_sampleRequest (wallet : String) (block : Nat) :
    (sampleRequest wallet block).message.IsSound := by
  rw [Message.IsSound, sampleRequest, sampleArrival, Message.payload_ofEvent]
  have quoted : Amount.estimate "5" "100000000" = .ok (some "5.000000000000000000") := by rfl
  exact ⟨_, quoted⟩

theorem isSound_sampleFulfilment (wallet : String) (block : Nat) :
    (sampleFulfilment wallet block).message.IsSound := by
  rw [Message.IsSound, sampleFulfilment, sampleArrival, Message.payload_ofEvent]
  trivial

theorem applyAll_eq_reconstruct_of_revised_request :
    ∃ answers : List Applied,
      applyAll [sampleRequest "w" 1, sampleRequest "w" 2, sampleFulfilment "w" 3,
          sampleRequest "w" 4] .empty =
        (answers.map .ok,
          ⟨[withdrawalRow (sampleRequest "w" 1) (sampleRequest "w" 2).message
              (some (sampleFulfilment "w" 3).message),
            withdrawalRow (sampleRequest "w" 4) (sampleRequest "w" 4).message none]⟩) := by
  refine applyAll_eq_reconstruct (w := "w") ?_ ?_ (by decide) (by decide) (by decide)
  · simp [sampleRequest, sampleFulfilment, sampleArrival, Message.ofEvent]
  · simp [isSound_sampleRequest, isSound_sampleFulfilment]

end Materialize

end VaultTransfers
