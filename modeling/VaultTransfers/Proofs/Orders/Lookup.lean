import VaultTransfers.Proofs.Http.Serving
import VaultTransfers.Proofs.Orders.Closing

/-!
Orders as users find them, by the hash of a transaction. An order is found by
every message that it has come of, but for requests: a request that revises an
open withdrawal takes the place of the one before it, whose hash then finds
nothing. Nothing else makes a hash lose its order.
-/

namespace VaultTransfers

namespace Order

/-- The order is known by the key, as its own or as that of its completion. -/
def IsOf (k : EventKey) (o : Order) : Prop :=
  o.key = k ∨ o.isCompletedBy k = true

variable {o : Order} {k : EventKey} {h : String}

theorem IsOf.named (isOf : o.IsOf k) : o.txHash = k.txHash ∨ o.completionTxHash = some k.txHash := by
  rcases isOf with rfl | completed
  · exact .inl rfl
  · simp only [isCompletedBy, Bool.and_eq_true, decide_eq_true_eq] at completed
    exact .inr completed.1

theorem Sound.completion_of_isOpen (sound : o.Sound) (isOpen : o.isOpen = true) :
    o.isCompletedBy k = false := by
  obtain ⟨-, unfulfilled, -⟩ := sound.inProgress (isOpen_iff.mp isOpen).2
  simp [isCompletedBy, unfulfilled]

theorem Sound.isOf_of_named (sound : o.Sound)
    (named : o.txHash = h ∨ o.completionTxHash = some h) : ∃ k, k.txHash = h ∧ o.IsOf k := by
  rcases named with rfl | fulfilled
  · exact ⟨o.key, rfl, .inl rfl⟩
  · have place : o.completionLogIndex.isSome = true := by
      cases direction : o.direction with
      | deposit =>
          obtain ⟨-, -, unfulfilled, -⟩ := sound.deposit direction
          rw [fulfilled] at unfulfilled
          cases unfulfilled
      | withdrawal =>
          cases status : o.status with
          | completed => exact (sound.completed direction status).2.1
          | inProgress =>
              obtain ⟨-, unfulfilled, -⟩ := sound.inProgress status
              rw [fulfilled] at unfulfilled
              cases unfulfilled
    obtain ⟨logIndex, place⟩ := Option.isSome_iff_exists.mp place
    exact ⟨⟨h, logIndex⟩, rfl, .inr (by simp [isCompletedBy, fulfilled, place])⟩

end Order

namespace OrderTable

variable {table : OrderTable} {o : Order} {h : String}

theorem byTransaction_eq_some (found : table.byTransaction h = some o) :
    o ∈ table.orders ∧ (o.txHash = h ∨ o.completionTxHash = some h) := by
  rcases Option.or_eq_some_iff.mp found with own | ⟨-, completion⟩
  · exact ⟨List.mem_of_find?_eq_some own, .inl (by simpa using List.find?_some own)⟩
  · exact ⟨List.mem_of_find?_eq_some completion, .inr (by simpa using List.find?_some completion)⟩

theorem byTransaction_eq_none (missing : table.byTransaction h = none) :
    ∀ o ∈ table.orders, ¬ (o.txHash = h ∨ o.completionTxHash = some h) := by
  obtain ⟨own, completion⟩ := Option.or_eq_none_iff.mp missing
  rintro o member (named | named)
  · exact absurd named (by simpa using List.find?_eq_none.mp own o member)
  · exact absurd named (by simpa using List.find?_eq_none.mp completion o member)

end OrderTable

namespace Materialize

/-- The message is a request, and the next one about a withdrawal of its wallet that can be applied
is a request, too; `later` are the messages behind it. -/
def RevisedBy (later : List Arrival) (m : Message) : Prop :=
  IsSuperseded m (ofWallet m.wallet (applicable later))

/-- A message that can be applied and that no message behind it has revised. -/
def Stands (as : List Arrival) (a : Arrival) : Prop :=
  ∃ before later, as = before ++ a :: later ∧ a.message.IsSound ∧ ¬ RevisedBy later a.message

section

variable {as more : List Arrival} {a b : Arrival} {o p : Order} {k : EventKey}
  {table after : OrderTable} {applied : Applied}

theorem Stands.mem (stands : Stands as a) : a ∈ as := by
  obtain ⟨before, later, rfl, -⟩ := stands
  simp

/-- A message that stands is known by a row. -/
theorem Stands.exists_row (stands : Stands as a) (mirrors : Mirrors table (applicable as)) :
    ∃ o ∈ table.orders, o.wallet = a.message.wallet ∧ o.IsOf a.message.key := by
  obtain ⟨before, later, rfl, sound, current⟩ := stands
  suffices row : ∃ o ∈ reconstruct false (ofWallet a.message.wallet
      (applicable (before ++ a :: later))), o.IsOf a.message.key by
    obtain ⟨o, among, isOf⟩ := row
    exact ⟨o, mirrors.mem_of_mem_reconstruct among, Mirrors.wallet_of_mem among, isOf⟩
  rw [ofWallet_applicable_cons sound]
  cases kind : a.message.kind with
  | deposit => exact ⟨depositRow a, depositRow_mem_reconstruct (by simp) kind, .inl rfl⟩
  | withdrawalCompleted =>
      have member : a ∈ ofWallet a.message.wallet (applicable before) ++
          a :: ofWallet a.message.wallet (applicable later) := by simp
      obtain ⟨o, among, completed⟩ := exists_isCompletedBy member kind
      exact ⟨o, among, .inr completed⟩
  | withdrawalRequested =>
      cases next : nextWithdrawal? (ofWallet a.message.wallet (applicable later)) with
      | none =>
          obtain ⟨first, run⟩ := openRun?_of_last (ofWallet a.message.wallet (applicable before))
            kind next
          exact ⟨_, mem_of_openRun? run, .inl rfl⟩
      | some m =>
          have fulfilment : m.kind = .withdrawalCompleted := by
            obtain ⟨-, -, -, -, -, -, withdrawal⟩ := split_of_nextWithdrawal?_some next
            cases other : m.kind with
            | deposit => exact absurd other withdrawal
            | withdrawalRequested => exact absurd ⟨kind, m, next, other⟩ current
            | withdrawalCompleted => rfl
          obtain ⟨o, among, key, -⟩ := exists_completed_of_fulfilled
            (ofWallet a.message.wallet (applicable before)) kind next fulfilment
          exact ⟨o, among, .inl key⟩

/-- Rows are known by nothing but messages that stand. -/
theorem stands_of_isOf (chained : Chained as) (mirrors : Mirrors table (applicable as))
    (member : o ∈ table.orders) (isOf : o.IsOf k) :
    ∃ a, Stands as a ∧ a.message.key = k ∧ a.message.wallet = o.wallet := by
  have row := mirrors.mem_iff.mp member
  have placed {a : Arrival} (among : a ∈ ofWallet o.wallet (applicable as)) :
      ∃ before later, as = before ++ a :: later ∧ a.message.IsSound ∧
        a.message.wallet = o.wallet := by
    obtain ⟨taken, wallet⟩ := mem_ofWallet.mp among
    obtain ⟨whole, applies⟩ := List.mem_filter.mp taken
    obtain ⟨before, later, split⟩ := List.append_of_mem whole
    exact ⟨before, later, split, Message.isApplicable_iff.mp applies, wallet⟩
  rcases isOf with key | completed
  · obtain ⟨a, among, same, -⟩ := key_of_mem_reconstruct row
    obtain ⟨before, later, rfl, sound, wallet⟩ := placed among
    refine ⟨a, ⟨before, later, rfl, sound, ?_⟩, same.symm.trans key, wallet⟩
    intro superseded
    have distinct := chained.history.ofWallet_keys a.message.wallet
    rw [← wallet] at row
    rw [ofWallet_applicable_cons sound] at distinct row
    exact key_not_mem_of_superseded distinct superseded o row same
  · obtain ⟨a, among, same, fulfilment⟩ := completion_of_mem_reconstruct row completed
    obtain ⟨before, later, rfl, sound, wallet⟩ := placed among
    refine ⟨a, ⟨before, later, rfl, sound, ?_⟩, same, wallet⟩
    rintro ⟨request, -⟩
    rw [fulfilment] at request
    cases request

/-- No two rows are known by one key. -/
theorem eq_of_isOf (chained : Chained as) (mirrors : Mirrors table (applicable as))
    (consistent : table.Consistent) (first : o ∈ table.orders) (second : p ∈ table.orders)
    (isOf : o.IsOf k) (isOf' : p.IsOf k) : o = p := by
  have completions {o p : Order} (first : o ∈ table.orders) (second : p ∈ table.orders)
      (completed : o.isCompletedBy k = true) (completed' : p.isCompletedBy k = true) : o = p := by
    by_contra other
    have apart := (consistent.apart_of_ne first second other).completion k completed
    rw [apart] at completed'
    cases completed'
  have mixed {o p : Order} (first : o ∈ table.orders) (second : p ∈ table.orders)
      (key : o.key = k) (completed : p.isCompletedBy k = true) : o = p := by
    obtain ⟨a, among, same, closing⟩ := key_of_mem_reconstruct (mirrors.mem_iff.mp first)
    obtain ⟨b, present, same', fulfilment⟩ :=
      completion_of_mem_reconstruct (mirrors.mem_iff.mp second) completed
    obtain rfl : a = b := chained.history.eq_of_key (mem_ofWallet.mp among).1
      (mem_ofWallet.mp present).1 (same.symm.trans (key.trans same'.symm))
    exact completions first second (same' ▸ closing fulfilment) completed
  rcases isOf with key | completed
  · rcases isOf' with key' | completed'
    · exact consistent.eq_of_key first second (key.trans key'.symm)
    · exact mixed first second key completed'
  · rcases isOf' with key' | completed'
    · exact (mixed second first key' completed).symm
    · exact completions first second completed completed'

/-- What a row is known by stays with the row, but for the key of an open withdrawal that a request
revises. -/
theorem Change.carries (change : Change b table applied after) (consistent : table.Consistent)
    (new : ∀ o ∈ table.orders, o.key ≠ b.message.key) (member : o ∈ table.orders)
    (isOf : o.IsOf k) :
    (∃ p ∈ after.orders, p.id = o.id ∧ p.IsOf k) ∨
      b.message.kind = .withdrawalRequested ∧ o.isOpenOf b.message.wallet = true ∧ o.key = k := by
  have key_of_isOpen (isOpen : o.isOpen = true) : o.key = k := by
    refine isOf.resolve_right fun completed => ?_
    rw [(consistent.sound o member).completion_of_isOpen isOpen] at completed
    cases completed
  have beside {q : Order} (other : o.id ≠ q.id) :
      ∃ p ∈ (table.replace q).orders, p.id = o.id ∧ p.IsOf k :=
    ⟨o, OrderTable.mem_replace_of_ne member other, rfl, isOf⟩
  cases change with
  | depositAdded _ _ => exact .inl ⟨o, OrderTable.mem_add.mpr (.inl member), rfl, isOf⟩
  | depositRewritten _ known key => exact absurd key (new _ known)
  | requestOpened _ _ _ => exact .inl ⟨o, OrderTable.mem_add.mpr (.inl member), rfl, isOf⟩
  | @requestRevised q request known isOpen _ meant =>
      by_cases same : o.id = q.id
      · obtain rfl := consistent.eq_of_id member known same
        have wallet := (meant.resolve_left (new o member)).1
        exact .inr ⟨request, Order.isOpenOf_iff.mpr ⟨wallet, isOpen⟩, key_of_isOpen isOpen⟩
      · exact .inl (beside same)
  | requestIgnored _ _ _ => exact .inl ⟨o, member, rfl, isOf⟩
  | @withdrawalCompleted q _ known isOpen _ _ =>
      by_cases same : o.id = q.id
      · obtain rfl := consistent.eq_of_id member known same
        have key := key_of_isOpen (Order.isOpenOf_iff.mp isOpen).2
        exact .inl ⟨closed o b.message, OrderTable.mem_replace member rfl, rfl, .inl key⟩
      · exact .inl (beside same)
  | completionRecorded _ _ _ _ => exact .inl ⟨o, OrderTable.mem_add.mpr (.inl member), rfl, isOf⟩
  | completionIgnored _ _ _ => exact .inl ⟨o, member, rfl, isOf⟩

theorem nextWithdrawal?_append (as bs : List Arrival) :
    nextWithdrawal? (as ++ bs) = (nextWithdrawal? as).or (nextWithdrawal? bs) := by
  induction as with
  | nil => rfl
  | cons a as ih => cases kind : a.message.kind <;> simp [nextWithdrawal?, kind, ih]

theorem applicable_append (as bs : List Arrival) :
    applicable (as ++ bs) = applicable as ++ applicable bs :=
  List.filter_append ..

theorem nextWithdrawal?_of_deposits (deposits : ∀ c ∈ as, c.message.kind = .deposit) :
    nextWithdrawal? as = none := by
  induction as with
  | nil => rfl
  | cons c cs ih =>
      rw [nextWithdrawal?, deposits c List.mem_cons_self]
      exact ih fun d member => deposits d (List.mem_cons_of_mem c member)

theorem Chained.left (chained : Chained (as ++ more)) : Chained as where
  keys := chained.keys.sublist ((List.sublist_append_left as more).map _)
  identities := chained.identities.sublist ((List.sublist_append_left as more).map _)
  chain := chained.chain.sublist (List.sublist_append_left as more)

theorem Chained.eq_of_key (chained : Chained as) (first : a ∈ as) (second : b ∈ as)
    (same : a.message.key = b.message.key) : a = b :=
  List.inj_on_of_nodup_map chained.keys first second same

theorem RevisedBy.append_right {m : Message} {later : List Arrival} (revised : RevisedBy later m) :
    RevisedBy (later ++ more) m := by
  obtain ⟨request, next, found, again⟩ := revised
  refine ⟨request, next, ?_, again⟩
  rw [applicable_append, ofWallet_append, nextWithdrawal?_append, found]
  rfl

theorem revisedBy_append {m : Message} {later : List Arrival}
    (revised : RevisedBy (later ++ more) m) : RevisedBy later m ∨ RevisedBy more m := by
  obtain ⟨request, next, found, again⟩ := revised
  rw [applicable_append, ofWallet_append, nextWithdrawal?_append] at found
  rcases Option.or_eq_some_iff.mp found with here | ⟨-, there⟩
  · exact .inl ⟨request, next, here, again⟩
  · exact .inr ⟨request, next, there, again⟩

theorem Stands.append (stands : Stands as a) (kept : ¬ RevisedBy more a.message) :
    Stands (as ++ more) a := by
  obtain ⟨before, later, rfl, sound, current⟩ := stands
  refine ⟨before, later ++ more, by simp, sound, ?_⟩
  intro revised
  exact (revisedBy_append revised).elim current kept

/-- Whether a message stands is told by what is behind it, and it is in one place only. -/
theorem Stands.not_revisedBy {before later : List Arrival}
    (stands : Stands (before ++ a :: later) a) (chained : Chained (before ++ a :: later)) :
    ¬ RevisedBy later a.message := by
  obtain ⟨before', later', split, -, current⟩ := stands
  have once := List.nodup_middle.mp (chained.keys.of_map _)
  obtain ⟨absent, -⟩ := List.nodup_cons.mp once
  rw [List.mem_append, not_or] at absent
  obtain ⟨-, -, rfl⟩ := (List.append_cons_inj_of_notMem absent.1 absent.2).mp split
  exact current

theorem Stands.left (stands : Stands (as ++ more) a) (chained : Chained (as ++ more))
    (among : a ∈ as) : Stands as a := by
  obtain ⟨-, -, -, sound, -⟩ := id stands
  obtain ⟨before, later, rfl⟩ := List.append_of_mem among
  rw [List.append_assoc, List.cons_append] at stands chained
  refine ⟨before, later, rfl, sound, ?_⟩
  intro revised
  exact stands.not_revisedBy chained revised.append_right

/-- The message that a wallet awaits the fulfilment of is revised by a further request. -/
theorem Awaits.revised (awaits : Awaits as a) (chained : Chained (as ++ [b]))
    (request : b.message.kind = .withdrawalRequested) (sound : b.message.IsSound)
    (wallet : b.message.wallet = a.message.wallet) : ¬ Stands (as ++ [b]) a := by
  obtain ⟨before, later, rfl, asked, -, quiet⟩ := awaits
  rw [List.append_assoc, List.cons_append] at chained ⊢
  intro stands
  refine stands.not_revisedBy chained ⟨asked, b.message, ?_, request⟩
  have none_ : nextWithdrawal? (ofWallet a.message.wallet (applicable later)) = none := by
    refine nextWithdrawal?_of_deposits fun c member => ?_
    obtain ⟨taken, same⟩ := mem_ofWallet.mp member
    obtain ⟨among, applies⟩ := List.mem_filter.mp taken
    exact quiet c among same (Message.isApplicable_iff.mp applies)
  have last : ofWallet a.message.wallet (applicable [b]) = [b] := by
    simp [ofWallet, applicable, Message.isApplicable_iff.mpr sound, wallet]
  rw [applicable_append, ofWallet_append, nextWithdrawal?_append, none_, last]
  simp [nextWithdrawal?, request]

theorem snd_applyAll_concat (as : List Arrival) (b : Arrival) (table : OrderTable) :
    (applyAll (as ++ [b]) table).2 = (settle b (applyAll as table).2).2 := by
  induction as generalizing table with
  | nil => rw [List.nil_append, applyAll_cons]; rfl
  | cons a as ih => rw [List.cons_append, applyAll_cons, applyAll_cons, ih]

/-- The row that is known by a message is found under the same identity as long as the message
stands. -/
theorem exists_same_row (chained : Chained (as ++ more)) (among : a ∈ as)
    (stands : Stands (as ++ more) a) (member : o ∈ (applyAll as .empty).2.orders)
    (isOf : o.IsOf a.message.key) :
    ∃ p ∈ (applyAll (as ++ more) .empty).2.orders, p.id = o.id ∧ p.IsOf a.message.key := by
  induction more using List.reverseRecOn with
  | nil => exact ⟨o, by simpa using member, rfl, isOf⟩
  | append_singleton more b ih =>
      rw [← List.append_assoc] at chained stands ⊢
      have earlier := chained.left
      obtain ⟨p, p_mem, same, isOf⟩ :=
        ih earlier (stands.left chained (List.mem_append_left more among))
      rw [snd_applyAll_concat]
      by_cases sound : b.message.IsSound
      · have kept := kept_applyAll earlier.identities
        have mirrors := mirrors_applicable earlier
        obtain ⟨applied, after, settled, change⟩ :=
          settle_of_isSound kept.consistent (kept.issued.unused chained.identities) sound
        have new : ∀ q ∈ (applyAll (as ++ more) .empty).2.orders, q.key ≠ b.message.key := by
          intro q q_mem key
          obtain ⟨c, taken, source, -⟩ := mirrors.key_of_mem q_mem
          have keys := chained.keys
          rw [List.map_append, List.nodup_append] at keys
          exact keys.2.2 _ (List.mem_map_of_mem (List.mem_of_mem_filter taken)) _
            (List.mem_map_of_mem List.mem_cons_self) (source.symm.trans key)
        rw [settled]
        rcases change.carries kept.consistent new p_mem isOf with
          ⟨q, q_mem, same', isOf'⟩ | ⟨request, isOpen, key⟩
        · exact ⟨q, q_mem, same'.trans same, isOf'⟩
        · obtain ⟨c, awaits, wallet, source, -⟩ := mirrors.awaits_of_isOpenOf p_mem isOpen
          obtain rfl : c = a := earlier.eq_of_key awaits.mem (List.mem_append_left more among)
            (source.symm.trans key)
          exact absurd stands (awaits.revised chained request sound wallet.symm)
      · obtain ⟨fault, settled, -⟩ := settle_of_not_isSound sound (applyAll (as ++ more) .empty).2
        rw [settled]
        exact ⟨p, p_mem, same, isOf⟩

/-- What is found by a hash has come of a message of that hash that stands. -/
theorem stands_of_byTransaction {hash : String} (chained : Chained as)
    (found : (applyAll as .empty).2.byTransaction hash = some o) :
    ∃ a, Stands as a ∧ a.message.txHash = hash ∧ o.wallet = a.message.wallet ∧
      o.IsOf a.message.key := by
  obtain ⟨member, named⟩ := OrderTable.byTransaction_eq_some found
  have consistent := (kept_applyAll chained.identities).consistent
  obtain ⟨k, rfl, isOf⟩ := (consistent.sound o member).isOf_of_named named
  obtain ⟨a, stands, rfl, wallet⟩ :=
    stands_of_isOf chained (mirrors_applicable chained) member isOf
  exact ⟨a, stands, rfl, wallet.symm, isOf⟩

theorem Stands.exists_byTransaction (stands : Stands as a) (chained : Chained as) :
    ∃ o, (applyAll as .empty).2.byTransaction a.message.txHash = some o := by
  obtain ⟨o, member, -, isOf⟩ := stands.exists_row (mirrors_applicable chained)
  cases found : (applyAll as .empty).2.byTransaction a.message.txHash with
  | some p => exact ⟨p, rfl⟩
  | none => exact absurd isOf.named (OrderTable.byTransaction_eq_none found o member)

/-- A hash finds an order just as long as a message of that hash stands. -/
theorem exists_byTransaction_iff {hash : String} (chained : Chained as) :
    (∃ o, (applyAll as .empty).2.byTransaction hash = some o) ↔
      ∃ a, Stands as a ∧ a.message.txHash = hash := by
  constructor
  · rintro ⟨o, found⟩
    obtain ⟨a, stands, same, -⟩ := stands_of_byTransaction chained found
    exact ⟨a, stands, same⟩
  · rintro ⟨a, stands, rfl⟩
    exact stands.exists_byTransaction chained

theorem byTransaction_eq_none_of_gone {hash : String} (chained : Chained as)
    (gone : ¬ ∃ a, Stands as a ∧ a.message.txHash = hash) :
    (applyAll as .empty).2.byTransaction hash = none :=
  Option.eq_none_iff_forall_ne_some.mpr fun o found =>
    gone ((exists_byTransaction_iff chained).mp ⟨o, found⟩)

/-- Where no other message has its hash, a message that keeps standing keeps finding one order. -/
theorem exists_same_order (chained : Chained (as ++ more)) (stands : Stands as a)
    (stays : Stands (as ++ more) a)
    (only : ∀ b ∈ as ++ more, b.message.txHash = a.message.txHash → b = a) :
    ∃ o p, (applyAll as .empty).2.byTransaction a.message.txHash = some o ∧
      (applyAll (as ++ more) .empty).2.byTransaction a.message.txHash = some p ∧
        o.IsOf a.message.key ∧ p.IsOf a.message.key ∧ p.id = o.id := by
  obtain ⟨o, found⟩ := stands.exists_byTransaction chained.left
  obtain ⟨p, found'⟩ := stays.exists_byTransaction chained
  obtain ⟨b, b_stands, b_hash, -, isOf⟩ := stands_of_byTransaction chained.left found
  obtain ⟨c, c_stands, c_hash, -, isOf'⟩ := stands_of_byTransaction chained found'
  obtain rfl : b = a := only b (List.mem_append_left more b_stands.mem) b_hash
  obtain rfl : c = b := only c c_stands.mem c_hash
  have member := (OrderTable.byTransaction_eq_some found).1
  obtain ⟨q, q_mem, same, q_isOf⟩ := exists_same_row chained stands.mem stays member isOf
  obtain rfl : q = p := eq_of_isOf chained (mirrors_applicable chained)
    (kept_applyAll chained.identities).consistent q_mem
    (OrderTable.byTransaction_eq_some found').1 q_isOf isOf'
  exact ⟨o, q, found, found', isOf, isOf', same⟩

/-- The response to a request behind messages that were applied to no orders. -/
def responseAfter (as : List Arrival) (defaultChain : Int) (watchList : WatchList)
    (r : Http.Request) : Http.Response :=
  (Http.serve defaultChain r ⟨watchList, (applyAll as .empty).2⟩).1

theorem responseAfter_eq {r : Http.Request} {h : Word} (as : List Arrival) (defaultChain : Int)
    (watchList : WatchList) (asks : r.AsksFor h) : responseAfter as defaultChain watchList r =
      Http.lookedUp ((applyAll as .empty).2.byTransaction h.text) := by
  rw [responseAfter, Http.serve_of_asksFor asks]

/-- A hash finds an order as long as a message of that hash stands. So once it does, it does so
behind every further message, unless every message that it stands for is a request and is revised;
and the hash of one message finds that message's order under one identity. -/
theorem found_unless_revised {r : Http.Request} {h : Word} (defaultChain : Int)
    (watchList : WatchList) (chained : Chained (as ++ more)) (asks : r.AsksFor h) :
    ((∃ a, Stands as a ∧ a.message.txHash = h.text) →
      ∃ a o, Stands as a ∧ a.message.txHash = h.text ∧ o ∈ (applyAll as .empty).2.orders ∧
        o.wallet = a.message.wallet ∧ o.IsOf a.message.key ∧
        responseAfter as defaultChain watchList r = .data 200 o.toJson) ∧
    ((¬ ∃ a, Stands as a ∧ a.message.txHash = h.text) →
      responseAfter as defaultChain watchList r = Http.Refusal.orderNotFound.response) ∧
    ((∃ o, responseAfter as defaultChain watchList r = .data 200 (Order.toJson o)) →
      (∃ o, responseAfter (as ++ more) defaultChain watchList r = .data 200 (Order.toJson o)) ∨
      responseAfter (as ++ more) defaultChain watchList r =
          Http.Refusal.orderNotFound.response ∧
        ∀ a, Stands as a → a.message.txHash = h.text → RevisedBy more a.message) ∧
    ∀ a, Stands as a → a.message.txHash = h.text → ¬ RevisedBy more a.message →
      Stands (as ++ more) a ∧
      ((∀ b ∈ as ++ more, b.message.txHash = h.text → b = a) →
        ∃ o p : Order, o.IsOf a.message.key ∧ p.IsOf a.message.key ∧ p.id = o.id ∧
          responseAfter as defaultChain watchList r = .data 200 o.toJson ∧
          responseAfter (as ++ more) defaultChain watchList r = .data 200 p.toJson) := by
  have response (bs : List Arrival) := responseAfter_eq bs defaultChain watchList asks
  refine ⟨?_, ?_, ?_, ?_⟩
  · intro stands
    obtain ⟨o, found⟩ := (exists_byTransaction_iff chained.left).mpr stands
    obtain ⟨a, stands, hash, wallet, isOf⟩ := stands_of_byTransaction chained.left found
    refine ⟨a, o, stands, hash, (OrderTable.byTransaction_eq_some found).1, wallet, isOf, ?_⟩
    rw [response, found]
    rfl
  · intro gone
    rw [response, byTransaction_eq_none_of_gone chained.left gone]
    rfl
  · intro _
    by_cases stands : ∃ a, Stands (as ++ more) a ∧ a.message.txHash = h.text
    · obtain ⟨o, found⟩ := (exists_byTransaction_iff chained).mpr stands
      refine .inl ⟨o, ?_⟩
      rw [response, found]
      rfl
    · refine .inr ⟨?_, ?_⟩
      · rw [response, byTransaction_eq_none_of_gone chained stands]
        rfl
      · intro a before hash
        by_contra kept
        exact stands ⟨a, before.append kept, hash⟩
  · rintro a stands hash kept
    refine ⟨stands.append kept, fun only => ?_⟩
    rw [← hash] at only response
    obtain ⟨o, p, found, found', isOf, isOf', same⟩ :=
      exists_same_order chained stands (stands.append kept) only
    refine ⟨o, p, isOf, isOf', same, ?_, ?_⟩
    · rw [response, found]
      rfl
    · rw [response, found']
      rfl

end

/-- A request of block `block`, in a transaction whose hash is that number. -/
def sampleAsked (block : Nat) : Arrival :=
  let a := sampleRequest "w" block
  { a with message := { a.message with txHash := (Word.ofNat block).text } }

theorem isSound_sampleAsked (block : Nat) : (sampleAsked block).message.IsSound := by
  have sound := isSound_sampleRequest "w" block
  simp only [Message.IsSound, Message.payload, sampleAsked] at sound ⊢
  exact sound

theorem chained_sampleAsked : Chained [sampleAsked 1, sampleAsked 2] :=
  ⟨by decide +kernel, by decide +kernel, by decide +kernel⟩

/-- Asks for the order of the transaction of block 1. -/
def sampleLookUp : Http.Request :=
  Http.lookUp (Text.hexDigits 64 1) [] []

theorem asksFor_sampleLookUp : sampleLookUp.AsksFor (.ofNat 1) :=
  Http.asksFor_lookUp [] [] (Text.length_hexDigits 64 1)
    (fun _ => Text.isHexDigit_of_mem_hexDigits) (Text.hexNumber_hexDigits 64 1)

theorem stands_sampleAsked : Stands [sampleAsked 1] (sampleAsked 1) := by
  refine ⟨[], [], rfl, isSound_sampleAsked 1, ?_⟩
  rintro ⟨-, next, found, -⟩
  cases found

/-- A request that is fulfilled is found before and after that. -/
theorem found_unless_revised_of_fulfilment :
    Chained ([sampleAsked 1] ++ [sampleFulfilment "w" 3]) ∧ sampleLookUp.AsksFor (.ofNat 1) ∧
      ∃ o p : Order, p.id = o.id ∧
        responseAfter [sampleAsked 1] 1 .empty sampleLookUp = .data 200 o.toJson ∧
        responseAfter ([sampleAsked 1] ++ [sampleFulfilment "w" 3]) 1 .empty sampleLookUp =
          .data 200 p.toJson := by
  have chained : Chained ([sampleAsked 1] ++ [sampleFulfilment "w" 3]) :=
    ⟨by decide +kernel, by decide +kernel, by decide +kernel⟩
  obtain ⟨-, -, -, stays⟩ := found_unless_revised 1 .empty chained asksFor_sampleLookUp
  have kept : ¬ RevisedBy [sampleFulfilment "w" 3] (sampleAsked 1).message := by
    rintro ⟨-, next, found, again⟩
    obtain ⟨deposits, c, later, split, rfl, -⟩ := split_of_nextWithdrawal?_some found
    have among : c ∈ ofWallet (sampleAsked 1).message.wallet
        (applicable [sampleFulfilment "w" 3]) := by simp [split]
    have taken := List.mem_of_mem_filter (mem_ofWallet.mp among).1
    rw [List.mem_singleton.mp taken] at again
    cases again
  obtain ⟨-, same⟩ := stays (sampleAsked 1) stands_sampleAsked rfl kept
  have only : ∀ b ∈ [sampleAsked 1] ++ [sampleFulfilment "w" 3],
      b.message.txHash = (Word.ofNat 1).text → b = sampleAsked 1 := by
    intro b member hash
    rcases List.mem_append.mp member with asked | fulfilled
    · exact List.mem_singleton.mp asked
    · rw [List.mem_singleton.mp fulfilled] at hash
      exact absurd hash (by decide +kernel)
  obtain ⟨o, p, -, -, identity, first, second⟩ := same only
  exact ⟨chained, asksFor_sampleLookUp, o, p, identity, first, second⟩

/-- The hash of a request finds its order until the wallet asks again. -/
theorem revised_request_is_lost :
    Chained ([sampleAsked 1] ++ [sampleAsked 2]) ∧ sampleLookUp.AsksFor (.ofNat 1) ∧
      (∃ o, responseAfter [sampleAsked 1] 1 .empty sampleLookUp = .data 200 (Order.toJson o)) ∧
      responseAfter ([sampleAsked 1] ++ [sampleAsked 2]) 1 .empty sampleLookUp =
        Http.Refusal.orderNotFound.response := by
  have response (as : List Arrival) : responseAfter as 1 .empty sampleLookUp =
      Http.lookedUp ((applyAll as .empty).2.byTransaction (Word.ofNat 1).text) := by
    rw [responseAfter, Http.serve_of_asksFor asksFor_sampleLookUp]
  have found : ((applyAll [sampleAsked 1] .empty).2.byTransaction (Word.ofNat 1).text).isSome := by
    decide +kernel
  have lost : (applyAll [sampleAsked 1, sampleAsked 2] .empty).2.byTransaction
      (Word.ofNat 1).text = none := by
    decide +kernel
  refine ⟨chained_sampleAsked, asksFor_sampleLookUp, ?_, ?_⟩
  · obtain ⟨o, found⟩ := Option.isSome_iff_exists.mp found
    refine ⟨o, ?_⟩
    rw [response, found]
    rfl
  · rw [List.singleton_append, response, lost]
    rfl

end Materialize

end VaultTransfers
