import VaultTransfers.Proofs.Orders.Change

/-!
Completed orders are final. A row stands under the key of a message that has
come, of a kind that fits its direction; where messages of one key agree, a
deposit that comes again writes the row that is there, and no other write
reaches a completed one.
-/

namespace VaultTransfers

/-- Two messages that say the same, whenever they were published. -/
def Message.Alike (m n : Message) : Prop :=
  { m with publishedAt := n.publishedAt } = n

namespace Message.Alike

variable {m n : Message}

theorem kind_eq (alike : m.Alike n) : m.kind = n.kind := by
  rw [← alike]

theorem key_eq (alike : m.Alike n) : m.key = n.key := by
  rw [← alike]
  rfl

theorem refl (m : Message) : m.Alike m := rfl

theorem symm (alike : m.Alike n) : n.Alike m := by
  rw [Alike, ← alike]

theorem trans {k : Message} (first : k.Alike m) (second : m.Alike n) : k.Alike n := by
  rw [Alike, ← second, ← first]

end Message.Alike

namespace Materialize

theorem orderOf_eq_of_alike {m n : Message} {id : OrderId} {direction : Direction}
    {status : OrderStatus} {estimate : Option String} (alike : m.Alike n) :
    orderOf id m direction status estimate = orderOf id n direction status estimate := by
  rw [← alike]
  rfl

/-- Messages of one key agree. -/
def Faithful (as : List Arrival) : Prop :=
  ∀ a ∈ as, ∀ b ∈ as, a.message.key = b.message.key → a.message.Alike b.message

/-- The message that a row has its key from. -/
inductive Root (as : List Arrival) (o : Order) : Prop
  | deposit {a : Arrival} (among : a ∈ as) (kind : a.message.kind = .deposit)
      (row : o = orderOf o.id a.message .deposit .completed none)
  | withdrawal {a : Arrival} (among : a ∈ as) (kind : a.message.kind ≠ .deposit)
      (direction : o.direction = .withdrawal) (key : o.key = a.message.key)

section

variable {fails : OrderTable.Call → StoreFault → Prop} {table after : OrderTable}
  {before later as : List Arrival} {a : Arrival} {o p : Order} {applied : Applied}
  {results : List (Except Fault Applied)}

theorem Root.mono (root : Root before o) : Root (before ++ [a]) o := by
  cases root with
  | deposit among kind row => exact .deposit (List.mem_append_left _ among) kind row
  | withdrawal among kind direction key =>
      exact .withdrawal (List.mem_append_left _ among) kind direction key

theorem root_of_change (rooted : ∀ o ∈ table.orders, Root before o)
    (change : Change a table applied after) : ∀ o ∈ after.orders, Root (before ++ [a]) o := by
  have last : a ∈ before ++ [a] := by simp
  have same : ∀ o ∈ table.orders, Root (before ++ [a]) o := fun o member => (rooted o member).mono
  cases change with
  | depositAdded deposit _ => exact OrderTable.forall_add same (.deposit last deposit rfl)
  | depositRewritten deposit _ _ =>
      exact OrderTable.forall_replace same (.deposit last deposit rfl)
  | requestOpened request _ _ =>
      exact OrderTable.forall_add same (.withdrawal last (by simp [request]) rfl rfl)
  | requestRevised request _ isOpen _ _ =>
      have withdrawal := (Order.isOpen_iff.mp isOpen).1
      exact OrderTable.forall_replace same (.withdrawal last (by simp [request]) withdrawal rfl)
  | requestIgnored _ _ _ => exact same
  | @withdrawalCompleted o _ member isOpen _ _ =>
      have withdrawal := (Order.isOpen_iff.mp (Order.isOpenOf_iff.mp isOpen).2).1
      refine OrderTable.forall_replace same ?_
      cases same o member with
      | deposit _ _ row =>
          rw [row] at withdrawal
          cases withdrawal
      | withdrawal among kind _ key => exact .withdrawal among kind withdrawal key
  | completionRecorded fulfilment _ _ _ =>
      exact OrderTable.forall_add same (.withdrawal last (by simp [fulfilment]) rfl rfl)
  | completionIgnored _ _ _ => exact same

/-- A deposit finds under its key the row that it would write. -/
theorem Root.rewritten (root : Root before o) (deposit : a.message.kind = .deposit)
    (key : o.key = a.message.key)
    (alike : ∀ b ∈ before, b.message.key = a.message.key → b.message.Alike a.message) :
    orderOf o.id a.message .deposit .completed none = o := by
  cases root with
  | @deposit b among kind row =>
      have same : b.message.key = a.message.key := by
        rw [← key, row]
        rfl
      exact (row.trans (orderOf_eq_of_alike (alike b among same))).symm
  | @withdrawal b among kind direction source =>
      have same := (alike b among (source.symm.trans key)).kind_eq
      exact absurd (same.trans deposit) kind

/-- A change leaves a completed row as it is, whichever row it is about. -/
theorem Change.keeps_completed (change : Change a table applied after)
    (consistent : table.Consistent) (rooted : ∀ o ∈ table.orders, Root before o)
    (alike : ∀ b ∈ before, b.message.key = a.message.key → b.message.Alike a.message)
    (member : o ∈ table.orders) (completed : o.status = .completed) : o ∈ after.orders := by
  -- an open row is another one
  have behind {p q : Order} (among : p ∈ table.orders) (isOpen : p.isOpen = true)
      (identity : q.id = p.id) : o ∈ (table.replace q).orders := by
    refine OrderTable.mem_replace_of_ne member fun same => ?_
    obtain rfl := consistent.eq_of_id member among (same.trans identity)
    exact absurd completed (by simp [(Order.isOpen_iff.mp isOpen).2])
  cases change with
  | depositAdded _ _ => exact OrderTable.mem_add.mpr (.inl member)
  | @depositRewritten p deposit among key =>
      rw [(rooted p among).rewritten deposit key alike, consistent.replace_self among]
      exact member
  | requestOpened _ _ _ => exact OrderTable.mem_add.mpr (.inl member)
  | requestRevised _ among isOpen _ _ => exact behind among isOpen rfl
  | requestIgnored _ _ _ => exact member
  | withdrawalCompleted _ among isOpen _ _ =>
      exact behind among (Order.isOpenOf_iff.mp isOpen).2 rfl
  | completionRecorded _ _ _ _ => exact OrderTable.mem_add.mpr (.inl member)
  | completionIgnored _ _ _ => exact member

/-- A table whose rows have their keys and identities from the messages so far. -/
structure Traced (as : List Arrival) (table : OrderTable) : Prop where
  kept : Kept as table
  rooted : ∀ o ∈ table.orders, Root as o

theorem traced_empty : Traced [] .empty :=
  ⟨kept_empty, fun _ member => absurd member List.not_mem_nil⟩

theorem Traced.step {r : Except Fault Applied} (traced : Traced before table)
    (identities : ((before ++ a :: later).map (·.fresh)).Nodup)
    (faithful : Faithful (before ++ a :: later))
    (run : Program.Runs (answers fails) (apply a.fresh a.message).run table r after) :
    Traced (before ++ [a]) after ∧
      ∀ o ∈ table.orders, o.status = .completed → o ∈ after.orders := by
  have alike : ∀ b ∈ before, b.message.key = a.message.key → b.message.Alike a.message :=
    fun b among => faithful b (by simp [among]) a (by simp)
  have kept := (traced.kept.step identities run).1
  have consistent := traced.kept.consistent
  rcases runs_apply_cases consistent (traced.kept.issued.unused identities) run with
    ⟨applied, rfl, change⟩ | ⟨rfl, -⟩
  · refine ⟨⟨kept, root_of_change traced.rooted change⟩, ?_⟩
    exact fun o member => change.keeps_completed consistent traced.rooted alike member
  · exact ⟨⟨kept, fun o member => (traced.rooted o member).mono⟩, fun o member _ => member⟩

theorem traced_of_stream (identities : (as.map (·.fresh)).Nodup) (faithful : Faithful as)
    (run : Program.Runs (answers fails) (applyEach as) .empty results table) :
    Traced as table := by
  rw [← List.nil_append as] at identities faithful ⊢
  refine applyEach_keeps Traced ?_ rfl traced_empty run
  intro before a later table r after whole traced run
  exact (traced.step (whole ▸ identities) (whole ▸ faithful) run).1

/-- A row that is completed stays in the table as it is, whatever messages come behind it and
whichever of their calls fail, as long as messages of one key agree. -/
theorem completed_of_stream {results' : List (Except Fault Applied)}
    (identities : ((before ++ later).map (·.fresh)).Nodup) (faithful : Faithful (before ++ later))
    (first : Program.Runs (answers fails) (applyEach before) .empty results table)
    (second : Program.Runs (answers fails) (applyEach later) table results' after)
    (member : o ∈ table.orders) (completed : o.status = .completed) :
    o ∈ after.orders ∧ ∀ p ∈ after.orders, p.id = o.id → p = o := by
  have start : Traced before table := by
    refine traced_of_stream ?_ ?_ first
    · exact identities.sublist (List.Sublist.map _ (List.sublist_append_left before later))
    · exact fun a among b present => faithful a (by simp [among]) b (by simp [present])
  have final : Traced (before ++ later) after ∧ o ∈ after.orders := by
    refine applyEach_keeps (fun as table => Traced as table ∧ o ∈ table.orders) ?_ rfl
      ⟨start, member⟩ second
    rintro before a later table r after whole ⟨traced, member⟩ run
    obtain ⟨next, keeps⟩ := traced.step (whole ▸ identities) (whole ▸ faithful) run
    exact ⟨next, keeps o member completed⟩
  refine ⟨final.2, ?_⟩
  intro p among same
  exact final.1.kept.consistent.eq_of_id among final.2 same

end

/-- Messages that come under keys of their own are faithful. -/
theorem faithful_of_nodup {as : List Arrival} (keys : (as.map (·.message.key)).Nodup) :
    Faithful as := by
  intro a among b present same
  rw [List.inj_on_of_nodup_map keys among present same]
  exact .refl _

/-- A message that comes again leaves a stream faithful. -/
theorem Faithful.append {as bs : List Arrival} (faithful : Faithful as)
    (again : ∀ b ∈ bs, ∃ a ∈ as, a.message.Alike b.message) : Faithful (as ++ bs) := by
  have known : ∀ b ∈ as ++ bs, ∃ a ∈ as, a.message.Alike b.message := by
    intro b member
    rcases List.mem_append.mp member with old | new
    · exact ⟨b, old, .refl _⟩
    · exact again b new
  intro b among c present same
  obtain ⟨b', among, first⟩ := known b among
  obtain ⟨c', present, second⟩ := known c present
  have alike := faithful b' among c' present (first.key_eq.trans (same.trans second.key_eq.symm))
  exact (first.symm.trans alike).trans second

/-- A message that is published once more. -/
def sampleReplay (a : Arrival) : Arrival :=
  ⟨⟨a.fresh.value + 10⟩, { a.message with publishedAt := .ofUnixMillis 9 }⟩

/-- A withdrawal that is fulfilled, and a deposit. -/
def sampleHistory : List Arrival :=
  [sampleRequest "w" 1, sampleFulfilment "w" 3, sampleDeposit "w" 5]

theorem faithful_sampleHistory : Faithful (sampleHistory ++ sampleHistory.map sampleReplay) := by
  refine Faithful.append (faithful_of_nodup (by decide)) ?_
  intro b member
  obtain ⟨a, among, rfl⟩ := List.mem_map.mp member
  exact ⟨a, among, rfl⟩

def sampleOrders : OrderTable :=
  (Program.interpret OrderTable.answer (applyEach sampleHistory) .empty).2

def sampleOrdersAgain : OrderTable :=
  (Program.interpret OrderTable.answer (applyEach (sampleHistory.map sampleReplay)) sampleOrders).2

theorem completed_of_stream_with_replays :
    ∃ o ∈ sampleOrders.orders, o.direction = .withdrawal ∧ o.status = .completed ∧
      o ∈ sampleOrdersAgain.orders := by
  have first := @runs_interpret_applyEach outage sampleHistory .empty
  have second := @runs_interpret_applyEach outage (sampleHistory.map sampleReplay) sampleOrders
  have member : sampleOrders.orders.head (by decide +kernel) ∈ sampleOrders.orders :=
    List.head_mem _
  have completed : (sampleOrders.orders.head (by decide +kernel)).status = .completed := by
    decide +kernel
  refine ⟨_, member, by decide +kernel, completed, ?_⟩
  exact (completed_of_stream (by decide) faithful_sampleHistory first second member completed).1

end Materialize

end VaultTransfers
