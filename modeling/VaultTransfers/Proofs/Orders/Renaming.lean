import Mathlib.Logic.Equiv.Basic
import VaultTransfers.Proofs.Orders.Consistency

/-!
Identities are names. A table whose rows are given other identities, different
ones for different rows, answers as it did, and an application does to it what it
did, but for the names. So it does not matter which identities the orders of
some messages have come with.
-/

namespace VaultTransfers

def Order.renamed (f : OrderId → OrderId) (o : Order) : Order :=
  { o with id := f o.id }

namespace OrderTable

def renamed (f : OrderId → OrderId) (table : OrderTable) : OrderTable :=
  ⟨table.orders.map (Order.renamed f)⟩

def Call.renamed (f : OrderId → OrderId) : Call → Call
  | .upsert o => .upsert (o.renamed f)
  | .update o => .update (o.renamed f)
  | c => c

section

variable {f g : OrderId → OrderId} {table : OrderTable}

@[simp]
theorem renamed_id (table : OrderTable) : table.renamed id = table := by
  change OrderTable.mk (table.orders.map id) = table
  rw [List.map_id]

theorem renamed_congr (same : ∀ o ∈ table.orders, f o.id = g o.id) :
    table.renamed f = table.renamed g := by
  refine congrArg OrderTable.mk (List.map_congr_left fun o member => ?_)
  rw [Order.renamed, Order.renamed, same o member]

theorem byKey_renamed (f : OrderId → OrderId) (table : OrderTable) (k : EventKey) :
    (table.renamed f).byKey k = (table.byKey k).map (Order.renamed f) :=
  List.find?_map ..

theorem byCompletion_renamed (f : OrderId → OrderId) (table : OrderTable) (k : EventKey) :
    (table.renamed f).byCompletion k = (table.byCompletion k).map (Order.renamed f) :=
  List.find?_map ..

theorem latest?_filter_renamed (f : OrderId → OrderId) (table : OrderTable) {q : Order → Bool}
    (blind : ∀ o : Order, q (o.renamed f) = q o) :
    Order.latest? ((table.renamed f).orders.filter q) =
      (Order.latest? (table.orders.filter q)).map (Order.renamed f) := by
  have kept (o p : Order) : (o.renamed f).before (p.renamed f) = o.before p := rfl
  have among : (table.orders.map (Order.renamed f)).filter q =
      (table.orders.filter q).map (Order.renamed f) := by
    rw [List.filter_map]
    exact congrArg (List.map _) (List.filter_congr fun o _ => blind o)
  rw [renamed, among, Order.latest?_map kept]

theorem openOf_renamed (f : OrderId → OrderId) (table : OrderTable) (wallet : String) :
    (table.renamed f).openOf wallet = (table.openOf wallet).map (Order.renamed f) :=
  latest?_filter_renamed f table fun _ => rfl

theorem openOfAmount_renamed (f : OrderId → OrderId) (table : OrderTable)
    (wallet amount : String) :
    (table.renamed f).openOfAmount wallet amount =
      (table.openOfAmount wallet amount).map (Order.renamed f) :=
  latest?_filter_renamed f table fun _ => rfl

theorem secondOpen?_renamed (f : OrderId → OrderId) (seen : List String) (orders : List Order) :
    secondOpen? seen (orders.map (Order.renamed f)) = secondOpen? seen orders := by
  induction orders generalizing seen with
  | nil => rfl
  | cons o orders ih =>
      have isOpen : (o.renamed f).isOpen = o.isOpen := rfl
      have wallet : (o.renamed f).wallet = o.wallet := rfl
      simp only [List.map_cons, secondOpen?, isOpen, wallet, ih]

theorem write_renamed (f : OrderId → OrderId) (table : OrderTable) (orders : List Order) :
    (table.renamed f).write (orders.map (Order.renamed f)) =
      (table.write orders).map id (renamed f) := by
  rw [write, write, secondOpen?_renamed]
  cases secondOpen? [] orders with
  | none => rfl
  | some wallet => rfl

theorem upsert_renamed (f : OrderId → OrderId) (table : OrderTable) (o : Order) :
    (table.renamed f).upsert (o.renamed f) = (table.upsert o).map id (renamed f) := by
  have known : (table.renamed f).orders.any (·.key = o.key) = table.orders.any (·.key = o.key) :=
    List.any_map ..
  have rewritten : (Store.changeFirst (·.key = o.key) (fun old => { o with id := old.id })
      table.orders).map (Order.renamed f) =
        Store.changeFirst (·.key = o.key) (fun old => { o.renamed f with id := old.id })
          (table.orders.map (Order.renamed f)) := by
    refine Store.map_changeFirst_of_comm ?_ ?_ table.orders
    · exact fun _ => rfl
    · exact fun _ => rfl
  have rows : (table.renamed f).orders = table.orders.map (Order.renamed f) := rfl
  have key : (o.renamed f).key = o.key := rfl
  rw [upsert, upsert, ← write_renamed, Store.changeOrAdd, Store.changeOrAdd, key, known, rows]
  split
  · rw [rewritten]
  · rw [List.map_append]
    rfl

theorem update_renamed (injective : f.Injective) (table : OrderTable) (o : Order) :
    (table.renamed f).update (o.renamed f) = (table.update o).map id (renamed f) := by
  have fits (p : Order) : decide ((p.renamed f).id = (o.renamed f).id) = decide (p.id = o.id) :=
    decide_eq_decide.mpr injective.eq_iff
  have rewritten : (Store.changeFirst (·.id = o.id) (fun _ => o) table.orders).map
      (Order.renamed f) =
        Store.changeFirst (·.id = (o.renamed f).id) (fun _ => o.renamed f)
          (table.orders.map (Order.renamed f)) := by
    refine Store.map_changeFirst_of_comm fits ?_ table.orders
    exact fun _ => rfl
  have rows : (table.renamed f).orders = table.orders.map (Order.renamed f) := rfl
  rw [update, update, ← write_renamed, rewritten, rows]

end

end OrderTable

namespace Materialize

section

variable {f : OrderId → OrderId} {a : Arrival} {table after : OrderTable}

def Arrival.renamed (f : OrderId → OrderId) (a : Arrival) : Arrival :=
  ⟨f a.fresh, a.message⟩

def Verdict.renamed (f : OrderId → OrderId) (v : Verdict) : Verdict :=
  ⟨v.applied, v.write.map (OrderTable.Call.renamed f)⟩

theorem openIn_renamed (f : OrderId → OrderId) (table : OrderTable) (m : Message) :
    openIn (table.renamed f) m = (openIn table m).map (Order.renamed f) := by
  rw [openIn, openIn, OrderTable.openOfAmount_renamed, OrderTable.openOf_renamed, Option.map_or]

theorem requestVerdict_renamed (f : OrderId → OrderId) (a : Arrival) (estimate : Option String)
    (table : OrderTable) :
    requestVerdict (a.renamed f) estimate (table.renamed f) =
      (requestVerdict a estimate table).renamed f := by
  have message : (a.renamed f).message = a.message := rfl
  unfold requestVerdict
  rw [message, OrderTable.byKey_renamed, openIn_renamed]
  cases table.byKey a.message.key with
  | some known =>
      have status : (known.renamed f).status = known.status := rfl
      simp only [Option.map_some, status]
      split
      · rfl
      · rfl
  | none =>
      cases openIn table a.message with
      | some o =>
          have position : (o.renamed f).position = o.position := rfl
          simp only [Option.map_none, Option.map_some, position]
          split
          · rfl
          · rfl
      | none => rfl

theorem fulfilmentVerdict_renamed (f : OrderId → OrderId) (a : Arrival) (table : OrderTable) :
    fulfilmentVerdict (a.renamed f) (table.renamed f) = (fulfilmentVerdict a table).renamed f := by
  have message : (a.renamed f).message = a.message := rfl
  unfold fulfilmentVerdict
  rw [message, OrderTable.byCompletion_renamed, OrderTable.byKey_renamed,
    OrderTable.openOf_renamed, Option.isSome_map, Option.isSome_map]
  split
  · rfl
  · cases table.openOf a.message.wallet with
    | some o => rfl
    | none => rfl

theorem verdict_renamed (f : OrderId → OrderId) (a : Arrival) (table : OrderTable) :
    verdict (a.renamed f) (table.renamed f) = (verdict a table).map (Verdict.renamed f) := by
  have message : (a.renamed f).message = a.message := rfl
  unfold verdict
  rw [message]
  cases a.message.payload with
  | error fault => rfl
  | ok payload =>
      cases payload with
      | deposit _ => rfl
      | withdrawalRequested request =>
          simp only
          cases Amount.estimate a.message.amount request.minPrice with
          | error fault => rfl
          | ok estimate => exact congrArg Except.ok (requestVerdict_renamed f a estimate table)
      | withdrawalCompleted _ => exact congrArg Except.ok (fulfilmentVerdict_renamed f a table)

theorem carryOut_renamed (injective : f.Injective) (v : Verdict) (table : OrderTable) :
    (v.renamed f).carryOut (table.renamed f) =
      (v.carryOut table).map id (OrderTable.renamed f) := by
  obtain ⟨applied, write⟩ := v
  cases write with
  | none => rfl
  | some c =>
      cases c with
      | upsert o =>
          simp only [Verdict.renamed, Verdict.carryOut, Option.map_some, OrderTable.Call.renamed,
            OrderTable.answer, OrderTable.upsert_renamed]
          obtain ⟨reply, after⟩ := table.upsert o
          cases reply <;> rfl
      | update o =>
          simp only [Verdict.renamed, Verdict.carryOut, Option.map_some, OrderTable.Call.renamed,
            OrderTable.answer, OrderTable.update_renamed injective]
          obtain ⟨reply, after⟩ := table.update o
          cases reply <;> rfl
      | byKey k => rfl
      | byCompletion k => rfl
      | openOf wallet => rfl
      | openOfAmount wallet amount => rfl
      | byTransaction txHash => rfl

/-- Under other names an application does the same, under these names. -/
theorem settle_renamed (injective : f.Injective) (a : Arrival) (table : OrderTable) :
    settle (a.renamed f) (table.renamed f) = (settle a table).map id (OrderTable.renamed f) := by
  rw [settle, settle, verdict_renamed]
  cases verdict a table with
  | error fault => rfl
  | ok v => exact carryOut_renamed injective v table

/-- What identity an order is made with does not matter, as long as no other order has it. -/
theorem settle_eq_renamed {f : Equiv.Perm OrderId} {fresh : OrderId}
    (unused : ∀ o ∈ table.orders, o.id ≠ a.fresh) (unused' : ∀ o ∈ table.orders, f o.id ≠ fresh) :
    ∃ g : Equiv.Perm OrderId, (∀ i, i ≠ a.fresh → f i ≠ fresh → g i = f i) ∧
      settle ⟨fresh, a.message⟩ (table.renamed f) =
        (settle a table).map id (OrderTable.renamed g) := by
  let g : Equiv.Perm OrderId := f.trans (Equiv.swap (f a.fresh) fresh)
  have named : g a.fresh = fresh := Equiv.swap_apply_left _ _
  have kept : ∀ i, i ≠ a.fresh → f i ≠ fresh → g i = f i := by
    intro i other away
    exact Equiv.swap_apply_of_ne_of_ne (fun same => other (f.injective same)) away
  have rows : table.renamed f = table.renamed g :=
    OrderTable.renamed_congr fun o member => (kept o.id (unused o member) (unused' o member)).symm
  refine ⟨g, kept, ?_⟩
  rw [rows, ← named]
  exact settle_renamed g.injective a table

theorem id_of_verdict {v : Verdict} {o : Order} (found : verdict a table = .ok v)
    (upserted : v.write = some (.upsert o)) : o.id = a.fresh := by
  unfold verdict at found
  split at found
  · cases found
  · cases found
    cases upserted
    rfl
  · split at found
    · cases found
    · cases found
      unfold requestVerdict at upserted
      split at upserted
      · split at upserted <;> cases upserted
      · split at upserted
        · split at upserted <;> cases upserted
        · cases upserted
          rfl
  · cases found
    unfold fulfilmentVerdict at upserted
    split at upserted
    · cases upserted
    · split at upserted
      · cases upserted
      · cases upserted
        rfl

theorem ids_of_write {orders : List Order} {P : OrderId → Prop}
    (old : ∀ o ∈ table.orders, P o.id) (new : ∀ o ∈ orders, P o.id) :
    ∀ o ∈ (table.write orders).2.orders, P o.id := by
  unfold OrderTable.write
  split
  · exact old
  · exact new

theorem ids_of_carryOut {v : Verdict} {P : OrderId → Prop}
    (old : ∀ o ∈ table.orders, P o.id)
    (new : ∀ o, v.write = some (.upsert o) → P o.id) :
    ∀ o ∈ (v.carryOut table).2.orders, P o.id := by
  obtain ⟨applied, write⟩ := v
  have carried (c : OrderTable.Call) :
      ((Verdict.mk applied (some c)).carryOut table).2 = (OrderTable.answer c table).2 := by
    simp only [Verdict.carryOut]
    obtain ⟨reply, after⟩ := OrderTable.answer c table
    cases reply <;> rfl
  cases write with
  | none => exact old
  | some c =>
      rw [carried]
      cases c with
      | upsert p =>
          have here := new p rfl
          refine ids_of_write old ?_
          intro o member
          unfold Store.changeOrAdd at member
          split at member
          · rcases Store.mem_of_mem_changeFirst member with before | ⟨q, among, -, rfl⟩
            · exact old o before
            · exact old q among
          · rcases List.mem_append.mp member with before | added
            · exact old o before
            · exact List.mem_singleton.mp added ▸ here
      | update p =>
          refine ids_of_write old ?_
          intro o member
          rcases Store.mem_of_mem_changeFirst member with before | ⟨q, among, fits, rfl⟩
          · exact old o before
          · exact (of_decide_eq_true fits : q.id = o.id) ▸ old q among
      | byKey k => exact old
      | byCompletion k => exact old
      | openOf wallet => exact old
      | openOfAmount wallet amount => exact old
      | byTransaction txHash => exact old

/-- The rows that an application leaves have identities of rows before, or the one at hand. -/
theorem ids_of_settle {P : OrderId → Prop} (old : ∀ o ∈ table.orders, P o.id)
    (new : P a.fresh) : ∀ o ∈ (settle a table).2.orders, P o.id := by
  unfold settle
  cases found : verdict a table with
  | error fault => exact old
  | ok v => exact ids_of_carryOut old fun o upserted => id_of_verdict found upserted ▸ new

end

end Materialize

end VaultTransfers
