import VaultTransfers.Proofs.Orders.Finality

/-!
A message that comes twice in a row. What the first application left is what the
second one is about: the row that a deposit or a request has written is found
under its key and written as it is, and a fulfilment that closed a row, or made
one, is passed over. Nothing is asked of the messages before.
-/

namespace VaultTransfers

namespace OrderTable.Consistent

variable {table : OrderTable} {o p : Order}

theorem byKey_eq (consistent : table.Consistent) (member : o ∈ table.orders) :
    table.byKey o.key = some o := by
  cases found : table.byKey o.key with
  | none => exact absurd rfl (byKey_eq_none found o member)
  | some p =>
      obtain ⟨among, key⟩ := byKey_eq_some found
      rw [consistent.eq_of_key among member key]

/-- A row that is in the table may be written once more, whatever identity it comes with. -/
theorem upsert_eq_self (consistent : table.Consistent) (member : p ∈ table.orders)
    (row : { o with id := p.id } = p) : table.upsert o = (.ok (), table) := by
  have key : p.key = o.key := by
    rw [← row]
    rfl
  have kept : table.replace { o with id := p.id } = table := by
    rw [row]
    exact consistent.replace_self member
  have written := upsert_of_known consistent member key (kept.symm ▸ consistent)
  rwa [kept] at written

theorem update_eq_self (consistent : table.Consistent) (member : o ∈ table.orders) :
    table.update o = (.ok (), table) := by
  have kept := consistent.replace_self member
  have written := update_of_consistent (kept.symm ▸ consistent)
  rwa [kept] at written

end OrderTable.Consistent

namespace Materialize

/-- What a message is answered right after it has been applied. -/
def Applied.again : Applied → Applied
  | .depositRecorded => .depositRecorded
  | .requestOpened | .requestRevised => .requestRevised
  | .requestIgnored => .requestIgnored
  | .withdrawalCompleted | .completionRecorded | .completionIgnored => .completionIgnored

section

variable {fails : OrderTable.Call → StoreFault → Prop} {table after : OrderTable}
  {as : List Arrival} {a b : Arrival} {p : Order} {applied : Applied} {estimate : Option String}
  {results : List (Except Fault Applied)}

/-- When a message was published is of no account. -/
theorem settle_of_alike (alike : b.message.Alike a.message) (table : OrderTable) :
    settle b table = settle ⟨b.fresh, a.message⟩ table := by
  obtain ⟨fresh, m⟩ := b
  have same : { m with publishedAt := a.message.publishedAt } = a.message := alike
  rw [← same]
  rfl

theorem carryOut_deposit_of_row (consistent : table.Consistent) (member : p ∈ table.orders)
    (row : orderOf p.id a.message .deposit .completed none = p) :
    (depositVerdict a).carryOut table = (.ok .depositRecorded, table) :=
  carryOut_upsert (consistent.upsert_eq_self member row)

theorem carryOut_request_of_row (consistent : table.Consistent) (member : p ∈ table.orders)
    (isOpen : p.isOpen = true) (row : revised p a.message estimate = p) :
    (requestVerdict a estimate table).carryOut table = (.ok .requestRevised, table) := by
  have key : p.key = a.message.key := by
    rw [← row]
    rfl
  have known : table.byKey a.message.key = some p := key ▸ consistent.byKey_eq member
  have pending : p.status ≠ .completed := by simp [(Order.isOpen_iff.mp isOpen).2]
  rw [requestVerdict, known]
  simp only [pending, if_false, row]
  exact carryOut_update (consistent.update_eq_self member)

theorem carryOut_fulfilment_of_row (member : p ∈ table.orders)
    (dealt : p.key = a.message.key ∨ p.isCompletedBy a.message.key = true) :
    (fulfilmentVerdict a table).carryOut table = (.ok .completionIgnored, table) := by
  have found : (table.byCompletion a.message.key).isSome = true ∨
      (table.byKey a.message.key).isSome = true := by
    rcases dealt with key | completed
    · exact .inr (List.find?_isSome.mpr ⟨p, member, by simpa using key⟩)
    · exact .inl (List.find?_isSome.mpr ⟨p, member, completed⟩)
  rw [fulfilmentVerdict, if_pos (by simpa using found)]
  rfl

/-- A request that is ignored is so with any identity at hand. -/
theorem requestVerdict_of_ignored (ignored : (requestVerdict a estimate table).applied =
    .requestIgnored) (id : OrderId) :
    requestVerdict ⟨id, a.message⟩ estimate table = ⟨.requestIgnored, none⟩ := by
  unfold requestVerdict at ignored ⊢
  cases known : table.byKey a.message.key with
  | some o =>
      simp only [known] at ignored ⊢
      split at ignored
      · rename_i completed
        simp only [completed, if_true]
      · cases ignored
  | none =>
      simp only [known] at ignored ⊢
      cases open' : openIn table a.message with
      | some o =>
          simp only [open'] at ignored ⊢
          split at ignored
          · rename_i older
            simp only [older, if_true]
          · cases ignored
      | none =>
          simp only [open'] at ignored
          cases ignored

/-- A verdict that is carried out is answered with what it comes to. -/
theorem Verdict.applied_of_carryOut {v : Verdict}
    (carried : v.carryOut table = (.ok applied, after)) : v.applied = applied := by
  unfold Verdict.carryOut at carried
  split at carried
  · cases carried
    rfl
  · split at carried
    · cases carried
      rfl
    · cases carried

/-- After a message has changed a consistent table, the same message leaves it alone. -/
theorem Change.settle_again (change : Change a table applied after)
    (settled : settle a table = (.ok applied, after)) (sound : a.message.IsSound)
    (consistent : after.Consistent) (id : OrderId) :
    settle ⟨id, a.message⟩ after = (.ok applied.again, after) := by
  have sound' : (Arrival.mk id a.message).message.IsSound := sound
  rw [settle, verdict_of_isSound sound']
  cases change with
  | depositAdded deposit _ =>
      simp only [deposit]
      exact carryOut_deposit_of_row consistent (OrderTable.mem_add.mpr (.inr rfl)) rfl
  | depositRewritten deposit member _ =>
      simp only [deposit]
      exact carryOut_deposit_of_row consistent (OrderTable.mem_replace member rfl) rfl
  | requestOpened request _ _ =>
      simp only [request]
      exact carryOut_request_of_row consistent (OrderTable.mem_add.mpr (.inr rfl)) rfl rfl
  | requestRevised request member isOpen _ _ =>
      simp only [request]
      exact carryOut_request_of_row consistent (OrderTable.mem_replace member rfl) isOpen rfl
  | requestIgnored request _ _ =>
      -- which row stood in the way does not matter: the verdict itself is the same
      rw [settle, verdict_of_isSound sound] at settled
      simp only [request] at settled ⊢
      have ignored := Verdict.applied_of_carryOut settled
      simp only [requestVerdict_of_ignored ignored id]
      rfl
  | withdrawalCompleted fulfilment member _ _ _ =>
      simp only [fulfilment]
      exact carryOut_fulfilment_of_row (OrderTable.mem_replace member rfl)
        (.inr (isCompletedBy_closed.mpr rfl))
  | completionRecorded fulfilment _ _ _ =>
      simp only [fulfilment]
      exact carryOut_fulfilment_of_row (OrderTable.mem_add.mpr (.inr rfl)) (.inl rfl)
  | completionIgnored fulfilment member known =>
      simp only [fulfilment]
      exact carryOut_fulfilment_of_row member known

theorem settle_again (consistent : table.Consistent) (unused : ∀ o ∈ table.orders, o.id ≠ a.fresh)
    (settled : settle a table = (.ok applied, after)) (id : OrderId) :
    settle ⟨id, a.message⟩ after = (.ok applied.again, after) := by
  by_cases sound : a.message.IsSound
  · obtain ⟨applied', after', settled', change⟩ := settle_of_isSound consistent unused sound
    obtain ⟨⟩ := settled'.symm.trans settled
    exact change.settle_again settled sound (change.consistent consistent unused) id
  · obtain ⟨fault, refused, -⟩ := settle_of_not_isSound sound table
    cases refused.symm.trans settled

/-- Whatever messages have come, and whichever of their calls failed, a message that goes through is
idempotent: coming again at once, it goes through again and the table stays as it is, row by row and
field by field. Neither the identity at hand nor the time of its publication matters then. -/
theorem applyTo_again (identities : ((as ++ [a]).map (·.fresh)).Nodup)
    (before : Program.Runs (answers fails) (applyEach as) .empty results table)
    (first : Program.Runs (answers fails) (apply a.fresh a.message).run table (.ok applied) after)
    (alike : b.message.Alike a.message) :
    applyTo b after = (.ok applied.again, after) := by
  have kept : Kept as table :=
    (kept_empty.stream (identities.sublist (by simp)) before).1
  have unused : ∀ o ∈ table.orders, o.id ≠ a.fresh := kept.issued.unused identities
  have settled : (.ok applied, after) = settle a table := by
    rcases runs_apply first with settled | ⟨c, fault, failing, broken, -⟩
    · exact settled
    · cases broken
  rw [applyTo_eq_settle, settle_of_alike alike]
  exact settle_again kept.consistent unused settled.symm b.fresh

end

/-- A withdrawal whose request has been superseded. -/
def sampleRevision : OrderTable :=
  (applyAll [sampleRequest "w" 1, sampleRequest "w" 2] .empty).2

theorem applyTo_again_of_revision :
    applyTo (sampleReplay (sampleRequest "w" 2)) sampleRevision =
      (.ok .requestRevised, sampleRevision) := by
  have before := @runs_applyAll outage [sampleRequest "w" 1] .empty
  have revises : (applyTo (sampleRequest "w" 2) (applyAll [sampleRequest "w" 1] .empty).2).1 =
      .ok .requestRevised := by decide +kernel
  have first := @runs_applyTo outage (sampleRequest "w" 2) (applyAll [sampleRequest "w" 1] .empty).2
  rw [revises] at first
  exact applyTo_again (by decide) before first rfl

end Materialize

end VaultTransfers
