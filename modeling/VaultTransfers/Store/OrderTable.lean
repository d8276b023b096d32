import VaultTransfers.Program
import VaultTransfers.Store.Fault
import VaultTransfers.Store.Rows
import VaultTransfers.Transfer.Order

/-!
The table of orders. An order is found by the event that made it, by the event
that completed it, or by its wallet while it is open; it is written anew under its
own identity. A write that would leave a wallet with two open withdrawals is
refused and changes nothing.
-/

namespace VaultTransfers

namespace Order

/-- Orders of later blocks come after those of earlier ones, by date first. -/
def before (a b : Order) : Bool :=
  a.date.before b.date || a.date = b.date && a.position.before b.position

/-- The latest order; of equally late ones the last. -/
def latest? (orders : List Order) : Option Order :=
  orders.foldl (fun best o =>
    match best with
    | none => some o
    | some b => if o.before b then some b else some o) none

end Order

namespace OrderTable

inductive Call where
  /-- Writes an order under its key; one that is there already keeps its identity. -/
  | upsert (o : Order)
  /-- Rewrites the order of the same identity, its key included. -/
  | update (o : Order)
  | byKey (k : EventKey)
  | byCompletion (k : EventKey)
  /-- The latest open withdrawal of a wallet. -/
  | openOf (wallet : String)
  | openOfAmount (wallet amount : String)
  /-- By the hash of its own transaction, or else by that of its completion. -/
  | byTransaction (txHash : String)
deriving DecidableEq

abbrev Value : Call → Type
  | .upsert _ | .update _ => Unit
  | .byKey _ | .byCompletion _ | .openOf _ | .openOfAmount _ _ | .byTransaction _ => Option Order

def interface : Interface where
  Call := Call
  Reply := fun c => Except StoreFault (Value c)

end OrderTable

/-- The orders in the order of their first writing. -/
structure OrderTable where
  orders : List Order

namespace OrderTable

def empty : OrderTable := ⟨[]⟩

/-- The wallet of the first order that is one open withdrawal too many. -/
def secondOpen? : (seen : List String) → List Order → Option String
  | _, [] => none
  | seen, o :: orders =>
    if o.isOpen then
      if seen.contains o.wallet then some o.wallet else secondOpen? (o.wallet :: seen) orders
    else secondOpen? seen orders

/-- Writes the table, unless a wallet would have two open withdrawals. -/
def write (orders : List Order) (table : OrderTable) : Except StoreFault Unit × OrderTable :=
  match secondOpen? [] orders with
  | some wallet => (.error (.corrupt (.secondOpenWithdrawal wallet)), table)
  | none => (.ok (), ⟨orders⟩)

def upsert (o : Order) (table : OrderTable) : Except StoreFault Unit × OrderTable :=
  table.write (Store.changeOrAdd (·.key = o.key) (fun old => { o with id := old.id }) o table.orders)

def update (o : Order) (table : OrderTable) : Except StoreFault Unit × OrderTable :=
  table.write (Store.changeFirst (·.id = o.id) (fun _ => o) table.orders)

def byKey (k : EventKey) (table : OrderTable) : Option Order :=
  table.orders.find? (·.key = k)

def byCompletion (k : EventKey) (table : OrderTable) : Option Order :=
  table.orders.find? (·.isCompletedBy k)

def openOf (wallet : String) (table : OrderTable) : Option Order :=
  Order.latest? (table.orders.filter (·.isOpenOf wallet))

def openOfAmount (wallet amount : String) (table : OrderTable) : Option Order :=
  Order.latest? (table.orders.filter fun o => o.isOpenOf wallet && o.amount = amount)

def byTransaction (txHash : String) (table : OrderTable) : Option Order :=
  (table.orders.find? (·.txHash = txHash)).or
    (table.orders.find? (·.completionTxHash = some txHash))

/-- The table kept in memory. -/
def answer : (c : Call) → StateM OrderTable (interface.Reply c)
  | .upsert o => upsert o
  | .update o => update o
  | .byKey k => fun table => (.ok (table.byKey k), table)
  | .byCompletion k => fun table => (.ok (table.byCompletion k), table)
  | .openOf wallet => fun table => (.ok (table.openOf wallet), table)
  | .openOfAmount wallet amount => fun table => (.ok (table.openOfAmount wallet amount), table)
  | .byTransaction txHash => fun table => (.ok (table.byTransaction txHash), table)

/-- A refused write changes nothing. -/
theorem snd_write_of_error {orders : List Order} {table : OrderTable} {fault : StoreFault}
    (h : (table.write orders).1 = .error fault) : (table.write orders).2 = table := by
  unfold write at h ⊢
  split at h
  · rfl
  · simp at h

end OrderTable

end VaultTransfers
