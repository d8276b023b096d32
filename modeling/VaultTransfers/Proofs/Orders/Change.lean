import VaultTransfers.Proofs.Orders.Consistency
import VaultTransfers.Proofs.Orders.Stream

/-!
What one message can do to a consistent table of orders, said once as a
`Change`. No change breaks a rule of the table, so the table refuses no write;
what does not come to a change is refused for what the message says, or by a
call that fails. From this, what a whole stream of messages leaves is consistent,
whatever the messages are.
-/

namespace VaultTransfers

namespace Materialize

section

variable {m : Message} {o : Order} {id : OrderId} {estimate : Option String} {k : EventKey}

@[simp]
theorem key_orderOf {direction : Direction} {status : OrderStatus} :
    (orderOf id m direction status estimate).key = m.key := rfl

@[simp]
theorem isCompletedBy_orderOf {direction : Direction} {status : OrderStatus} :
    (orderOf id m direction status estimate).isCompletedBy k = false := rfl

@[simp]
theorem isOpen_closed : (closed o m).isOpen = false := by
  simp [closed, Order.isOpen]

theorem isCompletedBy_closed : (closed o m).isCompletedBy k = true ↔ m.key = k := by
  obtain ⟨txHash, logIndex⟩ := k
  simp [closed, Order.isCompletedBy, Message.key]

theorem sound_deposit : (orderOf id m .deposit .completed none).Sound :=
  ⟨by simp [orderOf], by simp [orderOf], by simp [orderOf]⟩

theorem sound_request : (orderOf id m .withdrawal .inProgress estimate).Sound :=
  ⟨by simp [orderOf], by simp [orderOf], by simp [orderOf]⟩

theorem sound_revised (sound : o.Sound) (isOpen : o.isOpen = true) :
    (revised o m estimate).Sound := by
  obtain ⟨direction, status⟩ := Order.isOpen_iff.mp isOpen
  exact ⟨sound.inProgress, by simp [revised, status], by simp [revised, direction]⟩

theorem sound_closed (withdrawal : o.direction = .withdrawal) : (closed o m).Sound :=
  ⟨by simp [closed], by simp [closed], by simp [closed, withdrawal]⟩

end

/-- What a message can do to a table of orders, with what it goes by. -/
inductive Change (a : Arrival) (table : OrderTable) : Applied → OrderTable → Prop
  | depositAdded (deposit : a.message.kind = .deposit)
      (unknown : ∀ o ∈ table.orders, o.key ≠ a.message.key) :
      Change a table .depositRecorded
        (table.add (orderOf a.fresh a.message .deposit .completed none))
  | depositRewritten {o : Order} (deposit : a.message.kind = .deposit) (member : o ∈ table.orders)
      (key : o.key = a.message.key) :
      Change a table .depositRecorded
        (table.replace (orderOf o.id a.message .deposit .completed none))
  | requestOpened (request : a.message.kind = .withdrawalRequested)
      (unknown : ∀ o ∈ table.orders, o.key ≠ a.message.key)
      (noneOpen : ∀ o ∈ table.orders, o.isOpenOf a.message.wallet = false) :
      Change a table .requestOpened
        (table.add (orderOf a.fresh a.message .withdrawal .inProgress a.message.quote))
  | requestRevised {o : Order} (request : a.message.kind = .withdrawalRequested)
      (member : o ∈ table.orders) (isOpen : o.isOpen = true)
      (only : ∀ p ∈ table.orders, p.key = a.message.key → p = o)
      (meant : o.key = a.message.key ∨
        o.wallet = a.message.wallet ∧ a.message.position.before o.position = false) :
      Change a table .requestRevised (table.replace (revised o a.message a.message.quote))
  | requestIgnored {o : Order} (request : a.message.kind = .withdrawalRequested)
      (member : o ∈ table.orders)
      (known : o.key = a.message.key ∧ o.status = .completed ∨
        o.isOpenOf a.message.wallet = true ∧ a.message.position.before o.position = true) :
      Change a table .requestIgnored table
  | withdrawalCompleted {o : Order} (fulfilment : a.message.kind = .withdrawalCompleted)
      (member : o ∈ table.orders) (isOpen : o.isOpenOf a.message.wallet = true)
      (unknown : ∀ p ∈ table.orders, p.key ≠ a.message.key)
      (unfulfilled : ∀ p ∈ table.orders, p.isCompletedBy a.message.key = false) :
      Change a table .withdrawalCompleted (table.replace (closed o a.message))
  | completionRecorded (fulfilment : a.message.kind = .withdrawalCompleted)
      (unknown : ∀ p ∈ table.orders, p.key ≠ a.message.key)
      (unfulfilled : ∀ p ∈ table.orders, p.isCompletedBy a.message.key = false)
      (noneOpen : ∀ o ∈ table.orders, o.isOpenOf a.message.wallet = false) :
      Change a table .completionRecorded
        (table.add (closed (orderOf a.fresh a.message .withdrawal .completed none) a.message))
  | completionIgnored {o : Order} (fulfilment : a.message.kind = .withdrawalCompleted)
      (member : o ∈ table.orders)
      (known : o.key = a.message.key ∨ o.isCompletedBy a.message.key = true) :
      Change a table .completionIgnored table

section

variable {a : Arrival} {table after : OrderTable} {applied : Applied}

theorem Change.consistent (change : Change a table applied after) (consistent : table.Consistent)
    (unused : ∀ o ∈ table.orders, o.id ≠ a.fresh) : after.Consistent := by
  cases change with
  | depositAdded deposit unknown =>
      refine consistent.add sound_deposit ?_
      intro p member
      exact ⟨unused p member, unknown p member, by simp [orderOf, Order.isOpen], by simp⟩
  | @depositRewritten o deposit member key =>
      refine consistent.replace member rfl sound_deposit ?_
      intro q _ away
      refine ⟨away.identity, ?_, by simp [orderOf, Order.isOpen], by simp⟩
      rw [key_orderOf, ← key]
      exact away.key
  | requestOpened request unknown noneOpen =>
      refine consistent.add sound_request ?_
      intro p member
      refine ⟨unused p member, unknown p member, ?_, by simp⟩
      intro isOpen _ wallet
      have isOpenOf : p.isOpenOf a.message.wallet = true := Order.isOpenOf_iff.mpr ⟨wallet, isOpen⟩
      rw [noneOpen p member] at isOpenOf
      cases isOpenOf
  | @requestRevised o request member isOpen only meant =>
      refine consistent.replace member rfl (sound_revised (consistent.sound o member) isOpen) ?_
      intro q among away
      refine ⟨away.identity, ?_, fun _ => away.wallet isOpen, away.completion⟩
      intro key
      exact away.identity (congrArg Order.id (only q among key.symm)).symm
  | requestIgnored _ _ _ => exact consistent
  | @withdrawalCompleted o fulfilment member isOpen unknown unfulfilled =>
      obtain ⟨-, isOpen⟩ := Order.isOpenOf_iff.mp isOpen
      refine consistent.replace member rfl (sound_closed (Order.isOpen_iff.mp isOpen).1) ?_
      intro q among away
      refine ⟨away.identity, away.key, by simp, ?_⟩
      intro k completed
      rw [← isCompletedBy_closed.mp completed]
      exact unfulfilled q among
  | completionRecorded fulfilment unknown unfulfilled noneOpen =>
      refine consistent.add (sound_closed rfl) ?_
      intro p member
      refine ⟨unused p member, unknown p member, by simp, ?_⟩
      intro k completed
      by_contra both
      rw [Bool.not_eq_false, isCompletedBy_closed] at both
      rw [← both, unfulfilled p member] at completed
      cases completed
  | completionIgnored _ _ _ => exact consistent

theorem carryOut_upsert {o : Order} (written : table.upsert o = (.ok (), after)) :
    (Verdict.mk applied (some (.upsert o))).carryOut table = (.ok applied, after) := by
  simp only [Verdict.carryOut, OrderTable.answer, written]

theorem carryOut_update {o : Order} (written : table.update o = (.ok (), after)) :
    (Verdict.mk applied (some (.update o))).carryOut table = (.ok applied, after) := by
  simp only [Verdict.carryOut, OrderTable.answer, written]

/-- The verdict goes through and is a change. -/
def Settles (a : Arrival) (table : OrderTable) (v : Verdict) : Prop :=
  ∃ after, v.carryOut table = (.ok v.applied, after) ∧ Change a table v.applied after

theorem settles_deposit (consistent : table.Consistent)
    (unused : ∀ o ∈ table.orders, o.id ≠ a.fresh) (deposit : a.message.kind = .deposit) :
    Settles a table (depositVerdict a) := by
  by_cases known : ∃ o ∈ table.orders, o.key = a.message.key
  · obtain ⟨o, member, key⟩ := known
    have change := Change.depositRewritten deposit member key
    have kept := change.consistent consistent unused
    exact ⟨_, carryOut_upsert (OrderTable.upsert_of_known consistent member key kept), change⟩
  · have unknown : ∀ o ∈ table.orders, o.key ≠ a.message.key :=
      fun o member key => known ⟨o, member, key⟩
    have change := Change.depositAdded deposit unknown
    have kept := change.consistent consistent unused
    exact ⟨_, carryOut_upsert (OrderTable.upsert_of_unknown unknown kept), change⟩

theorem openIn_eq_some {m : Message} {o : Order} (found : openIn table m = some o) :
    o ∈ table.orders ∧ o.isOpenOf m.wallet = true := by
  rcases Option.or_eq_some_iff.mp found with byAmount | ⟨-, latest⟩
  · exact OrderTable.openOfAmount_eq_some byAmount
  · exact OrderTable.openOf_eq_some latest

theorem settles_request (consistent : table.Consistent)
    (unused : ∀ o ∈ table.orders, o.id ≠ a.fresh)
    (request : a.message.kind = .withdrawalRequested) :
    Settles a table (requestVerdict a a.message.quote table) := by
  unfold requestVerdict
  cases known : table.byKey a.message.key with
  | some o =>
      obtain ⟨member, key⟩ := OrderTable.byKey_eq_some known
      by_cases completed : o.status = .completed
      · simp only [completed, if_true]
        exact ⟨table, rfl, .requestIgnored request member (.inl ⟨key, completed⟩)⟩
      · have isOpen : o.isOpen = true := by
          apply (consistent.sound o member).isOpen_of_inProgress
          cases status : o.status with
          | completed => exact absurd status completed
          | inProgress => rfl
        have only : ∀ p ∈ table.orders, p.key = a.message.key → p = o :=
          fun p among same => consistent.eq_of_key among member (same.trans key.symm)
        have change := Change.requestRevised request member isOpen only (.inl key)
        have kept := change.consistent consistent unused
        simp only [completed, if_false]
        exact ⟨_, carryOut_update (OrderTable.update_of_consistent kept), change⟩
  | none =>
      have unknown := OrderTable.byKey_eq_none known
      cases found : openIn table a.message with
      | some o =>
          obtain ⟨member, isOpenOf⟩ := openIn_eq_some found
          obtain ⟨wallet, isOpen⟩ := Order.isOpenOf_iff.mp isOpenOf
          cases older : a.message.position.before o.position with
          | true =>
              simp only [older, if_true]
              exact ⟨table, rfl, .requestIgnored request member (.inr ⟨isOpenOf, older⟩)⟩
          | false =>
              have change := Change.requestRevised request member isOpen
                (fun p among same => absurd same (unknown p among)) (.inr ⟨wallet, older⟩)
              have kept := change.consistent consistent unused
              simp only [older, Bool.false_eq_true, if_false]
              exact ⟨_, carryOut_update (OrderTable.update_of_consistent kept), change⟩
      | none =>
          have noneOpen := OrderTable.openOf_eq_none (Option.or_eq_none_iff.mp found).2
          have change := Change.requestOpened request unknown noneOpen
          have kept := change.consistent consistent unused
          exact ⟨_, carryOut_upsert (OrderTable.upsert_of_unknown unknown kept), change⟩

theorem settles_fulfilment (consistent : table.Consistent)
    (unused : ∀ o ∈ table.orders, o.id ≠ a.fresh)
    (fulfilment : a.message.kind = .withdrawalCompleted) :
    Settles a table (fulfilmentVerdict a table) := by
  unfold fulfilmentVerdict
  cases completed : table.byCompletion a.message.key with
  | some o =>
      have member := List.mem_of_find?_eq_some completed
      have same : o.isCompletedBy a.message.key = true := by simpa using List.find?_some completed
      exact ⟨table, rfl, .completionIgnored fulfilment member (.inr same)⟩
  | none =>
      have unfulfilled := OrderTable.byCompletion_eq_none completed
      cases known : table.byKey a.message.key with
      | some o =>
          obtain ⟨member, key⟩ := OrderTable.byKey_eq_some known
          exact ⟨table, rfl, .completionIgnored fulfilment member (.inl key)⟩
      | none =>
          have unknown := OrderTable.byKey_eq_none known
          cases found : table.openOf a.message.wallet with
          | some o =>
              obtain ⟨member, isOpen⟩ := OrderTable.openOf_eq_some found
              have change := Change.withdrawalCompleted fulfilment member isOpen unknown unfulfilled
              have kept := change.consistent consistent unused
              exact ⟨_, carryOut_update (OrderTable.update_of_consistent kept), change⟩
          | none =>
              have noneOpen := OrderTable.openOf_eq_none found
              have change := Change.completionRecorded fulfilment unknown unfulfilled noneOpen
              have kept := change.consistent consistent unused
              exact ⟨_, carryOut_upsert (OrderTable.upsert_of_unknown unknown kept), change⟩

/-- A message that can be read and quoted changes a consistent table in one of these ways; the table
refuses nothing. -/
theorem settle_of_isSound (consistent : table.Consistent)
    (unused : ∀ o ∈ table.orders, o.id ≠ a.fresh) (sound : a.message.IsSound) :
    ∃ applied after, settle a table = (.ok applied, after) ∧ Change a table applied after := by
  have ofSettles {v : Verdict} (settles : Settles a table v) :
      ∃ applied after, v.carryOut table = (.ok applied, after) ∧ Change a table applied after := by
    obtain ⟨after, carried, change⟩ := settles
    exact ⟨_, after, carried, change⟩
  rw [settle, verdict_of_isSound sound]
  cases kind : a.message.kind with
  | deposit => exact ofSettles (settles_deposit consistent unused kind)
  | withdrawalRequested => exact ofSettles (settles_request consistent unused kind)
  | withdrawalCompleted => exact ofSettles (settles_fulfilment consistent unused kind)

/-- Any other message is refused for what it says. -/
theorem settle_of_not_isSound (unsound : ¬ a.message.IsSound) (table : OrderTable) :
    ∃ fault, settle a table = (.error fault, table) ∧ ∀ refusal, fault ≠ .store refusal := by
  unfold Message.IsSound at unsound
  cases read : a.message.payload with
  | error fault => exact ⟨.malformed (.shape fault), by simp only [settle, verdict, read], by simp⟩
  | ok payload =>
      rw [read] at unsound
      cases payload with
      | deposit _ => exact absurd trivial unsound
      | withdrawalCompleted _ => exact absurd trivial unsound
      | withdrawalRequested request =>
          cases computed : Amount.estimate a.message.amount request.minPrice with
          | error fault =>
              refine ⟨.amount a.message.key fault, ?_, by simp⟩
              simp only [settle, verdict, read, computed]
          | ok estimate => exact absurd ⟨estimate, computed⟩ unsound

theorem runs_apply_cases {fails : OrderTable.Call → StoreFault → Prop} {r : Except Fault Applied}
    (consistent : table.Consistent) (unused : ∀ o ∈ table.orders, o.id ≠ a.fresh)
    (run : Program.Runs (answers fails) (apply a.fresh a.message).run table r after) :
    (∃ applied, r = .ok applied ∧ Change a table applied after) ∨
      after = table ∧ ∃ fault, r = .error fault ∧
        ∀ refusal, fault = .store refusal → ∃ c, fails c refusal := by
  rcases runs_apply run with settled | ⟨c, fault, failing, rfl, rfl⟩
  · by_cases sound : a.message.IsSound
    · obtain ⟨applied, next, settles, change⟩ := settle_of_isSound consistent unused sound
      rw [settles] at settled
      cases settled
      exact .inl ⟨applied, rfl, change⟩
    · obtain ⟨fault, settles, other⟩ := settle_of_not_isSound sound table
      rw [settles] at settled
      cases settled
      exact .inr ⟨rfl, fault, rfl, fun refusal same => absurd same (other refusal)⟩
  · refine .inr ⟨rfl, .store fault, rfl, ?_⟩
    rintro refusal same
    cases same
    exact ⟨c, failing⟩

end

/-- Every row has the identity that one of the messages came with. -/
def Issued (as : List Arrival) (table : OrderTable) : Prop :=
  ∀ o ∈ table.orders, ∃ a ∈ as, o.id = a.fresh

section

variable {fails : OrderTable.Call → StoreFault → Prop} {table after : OrderTable}
  {before later as : List Arrival} {a : Arrival} {results : List (Except Fault Applied)}

theorem Issued.unused (issued : Issued before table)
    (identities : ((before ++ a :: later).map (·.fresh)).Nodup) :
    ∀ o ∈ table.orders, o.id ≠ a.fresh := by
  intro o member same
  obtain ⟨b, among, id⟩ := issued o member
  rw [List.map_append, List.nodup_append] at identities
  refine identities.2.2 b.fresh (List.mem_map_of_mem among) a.fresh ?_ (id.symm.trans same)
  exact List.mem_map_of_mem List.mem_cons_self

theorem Issued.mono (issued : Issued before table) : Issued (before ++ [a]) table := by
  intro o member
  obtain ⟨b, among, id⟩ := issued o member
  exact ⟨b, List.mem_append_left _ among, id⟩

theorem Issued.change {applied : Applied} (issued : Issued before table)
    (change : Change a table applied after) : Issued (before ++ [a]) after := by
  have last : a ∈ before ++ [a] := by simp
  cases change with
  | depositAdded _ _ => exact OrderTable.forall_add issued.mono ⟨a, last, rfl⟩
  | @depositRewritten o _ member _ =>
      exact OrderTable.forall_replace issued.mono (issued.mono o member)
  | requestOpened _ _ _ => exact OrderTable.forall_add issued.mono ⟨a, last, rfl⟩
  | @requestRevised o _ member _ _ _ =>
      exact OrderTable.forall_replace issued.mono (issued.mono o member)
  | requestIgnored _ _ _ => exact issued.mono
  | @withdrawalCompleted o _ member _ _ _ =>
      exact OrderTable.forall_replace issued.mono (issued.mono o member)
  | completionRecorded _ _ _ _ => exact OrderTable.forall_add issued.mono ⟨a, last, rfl⟩
  | completionIgnored _ _ _ => exact issued.mono

/-- A table of rows whose identities come from the messages so far. -/
structure Kept (as : List Arrival) (table : OrderTable) : Prop where
  consistent : table.Consistent
  issued : Issued as table

theorem kept_empty : Kept [] .empty :=
  ⟨.empty, fun _ member => absurd member List.not_mem_nil⟩

theorem Kept.step {r : Except Fault Applied} (kept : Kept before table)
    (identities : ((before ++ a :: later).map (·.fresh)).Nodup)
    (run : Program.Runs (answers fails) (apply a.fresh a.message).run table r after) :
    Kept (before ++ [a]) after ∧
      ∀ refusal, r = .error (.store refusal) → ∃ c, fails c refusal := by
  have unused := kept.issued.unused identities
  rcases runs_apply_cases kept.consistent unused run with
    ⟨applied, rfl, change⟩ | ⟨rfl, fault, rfl, refused⟩
  · exact ⟨⟨change.consistent kept.consistent unused, kept.issued.change change⟩, by simp⟩
  · refine ⟨⟨kept.consistent, kept.issued.mono⟩, ?_⟩
    intro refusal same
    exact refused refusal (Except.error.inj same)

theorem Kept.settle (kept : Kept before table)
    (identities : ((before ++ a :: later).map (·.fresh)).Nodup) :
    Kept (before ++ [a]) (settle a table).2 := by
  rw [← applyTo_eq_settle]
  exact (kept.step identities (@runs_applyTo (fun _ _ => False) a table)).1

theorem Kept.stream (kept : Kept before table)
    (identities : ((before ++ later).map (·.fresh)).Nodup)
    (run : Program.Runs (answers fails) (applyEach later) table results after) :
    Kept (before ++ later) after ∧
      ∀ r ∈ results, ∀ refusal, r = .error (.store refusal) → ∃ c, fails c refusal := by
  refine applyEach_induction ?_ rfl kept run
  intro before a later table r after whole kept run
  exact kept.step (whole ▸ identities) run

/-- Whatever messages come, and whichever of their calls fail, the table stays consistent, and it is
never for a second open withdrawal that a message is refused. -/
theorem consistent_of_stream (identities : (as.map (·.fresh)).Nodup)
    (honest : ∀ c wallet, ¬ fails c (.corrupt (.secondOpenWithdrawal wallet)))
    (run : Program.Runs (answers fails) (applyEach as) .empty results table) :
    table.Consistent ∧
      ∀ wallet, Except.error (.store (.corrupt (.secondOpenWithdrawal wallet))) ∉ results := by
  obtain ⟨kept, refusals⟩ := kept_empty.stream identities run
  refine ⟨kept.consistent, ?_⟩
  intro wallet member
  obtain ⟨c, failing⟩ := refusals _ member _ rfl
  exact honest c wallet failing

end

/-- A database that cannot be reached. -/
def outage (_ : OrderTable.Call) (fault : StoreFault) : Prop :=
  fault = .database .timedOut

def sampleDeposit (wallet : String) (block : Nat) : Arrival :=
  sampleArrival wallet block (.deposit ⟨"1", wallet, "token", "5", "5", "0", "0"⟩)

/-- A deposit, a request twice, its revision and its fulfilment, the deposit once more, now under the
key of the completed order, and a request of another wallet. -/
def sampleStream : List Arrival :=
  [sampleDeposit "w" 2, sampleRequest "w" 1, { sampleRequest "w" 1 with fresh := ⟨7⟩ },
    { sampleRequest "w" 2 with fresh := ⟨9⟩ }, sampleFulfilment "w" 3,
    { sampleDeposit "w" 2 with fresh := ⟨8⟩ }, sampleRequest "v" 4]

/-- The first message fails, the others go through. -/
def sampleTable : OrderTable :=
  (Program.interpret OrderTable.answer (applyEach sampleStream.tail) .empty).2

theorem runs_sampleDeposit_of_outage (table : OrderTable) :
    Program.Runs (answers outage)
      (apply (sampleDeposit "w" 2).fresh (sampleDeposit "w" 2).message).run table
      (.error (.store (.database .timedOut))) table := by
  rw [apply, sampleDeposit, sampleArrival, Message.payload_ofEvent]
  exact runs_ask_bind.mpr ⟨.error (.database .timedOut), table, .inr ⟨_, rfl, rfl, rfl⟩, rfl, rfl⟩

theorem consistent_of_stream_with_collision :
    sampleTable.orders.map (·.direction) = [.deposit, .withdrawal] ∧ sampleTable.Consistent := by
  have run : Program.Runs (answers outage) (applyEach sampleStream) .empty
      (_ :: (Program.interpret OrderTable.answer (applyEach sampleStream.tail) .empty).1)
      sampleTable :=
    runs_applyEach_cons.mpr ⟨_, _, _, runs_sampleDeposit_of_outage .empty,
      runs_interpret_applyEach sampleStream.tail .empty, rfl⟩
  refine ⟨by decide +kernel, ?_⟩
  exact (consistent_of_stream (by decide) (by simp [outage]) run).1

end Materialize

end VaultTransfers
