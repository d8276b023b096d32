import Mathlib.Data.List.Pairwise
import VaultTransfers.Proofs.Orders.Mirror

/-!
Tables of orders in which rows have identities, keys and completions of their
own, a wallet has one open withdrawal at most, and the status of a row tells
which of its fields are set. Such a table takes every write that leaves it so,
and what is looked up in it is told apart by any of these.
-/

namespace VaultTransfers

namespace Order

/-- What a row keeps to by itself. -/
structure Sound (o : Order) : Prop where
  inProgress : o.status = .inProgress →
    o.direction = .withdrawal ∧ o.completionTxHash = none ∧ o.completionLogIndex = none
  completed : o.direction = .withdrawal → o.status = .completed →
    o.completionTxHash.isSome ∧ o.completionLogIndex.isSome ∧ o.estimate.isSome
  deposit : o.direction = .deposit →
    o.status = .completed ∧ o.estimate = none ∧ o.completionTxHash = none ∧
      o.completionLogIndex = none

/-- What two rows keep to. -/
structure Apart (o p : Order) : Prop where
  identity : o.id ≠ p.id
  key : o.key ≠ p.key
  wallet : o.isOpen = true → p.isOpen = true → o.wallet ≠ p.wallet
  completion : ∀ k, o.isCompletedBy k = true → p.isCompletedBy k = false

theorem Apart.symm {o p : Order} (apart : o.Apart p) : p.Apart o where
  identity := apart.identity.symm
  key := apart.key.symm
  wallet first second := (apart.wallet second first).symm
  completion k completed := by
    by_contra both
    rw [Bool.not_eq_false] at both
    rw [apart.completion k both] at completed
    cases completed

theorem isOpen_iff {o : Order} :
    o.isOpen = true ↔ o.direction = .withdrawal ∧ o.status = .inProgress := by
  simp [isOpen]

theorem isOpenOf_iff {o : Order} {wallet : String} :
    o.isOpenOf wallet = true ↔ o.wallet = wallet ∧ o.isOpen = true := by
  simp [isOpenOf]

theorem Sound.isOpen_of_inProgress {o : Order} (sound : o.Sound) (status : o.status = .inProgress) :
    o.isOpen = true :=
  isOpen_iff.mpr ⟨(sound.inProgress status).1, status⟩

/-- The later of two orders, of which the first may be missing. -/
def laterOf (best : Option Order) (o : Order) : Option Order :=
  match best with
  | none => some o
  | some b => if o.before b then some b else some o

theorem laterOf_eq (b o : Order) : laterOf (some b) o = some o ∨ laterOf (some b) o = some b := by
  cases before : o.before b with
  | true => exact .inr (by rw [laterOf, before]; rfl)
  | false => exact .inl (by rw [laterOf, before]; rfl)

theorem foldl_laterOf (orders : List Order) (b : Order) :
    ∃ o, orders.foldl laterOf (some b) = some o ∧ (o = b ∨ o ∈ orders) := by
  induction orders generalizing b with
  | nil => exact ⟨b, rfl, .inl rfl⟩
  | cons p ps ih =>
      rw [List.foldl_cons]
      rcases laterOf_eq b p with next | kept
      · obtain ⟨o, last, among⟩ := ih p
        rw [next]
        exact ⟨o, last, .inr (List.mem_cons.mpr among)⟩
      · obtain ⟨o, last, among⟩ := ih b
        rw [kept]
        exact ⟨o, last, among.imp_right (List.mem_cons_of_mem p)⟩

theorem latest?_mem {orders : List Order} {o : Order} (found : latest? orders = some o) :
    o ∈ orders := by
  cases orders with
  | nil => cases found
  | cons b bs =>
      obtain ⟨p, last, among⟩ := foldl_laterOf bs b
      obtain rfl : p = o := Option.some.inj (last.symm.trans found)
      exact List.mem_cons.mpr among

/-- A projection that keeps which of two orders comes first keeps the latest one. -/
theorem latest?_map {g : Order → Order} (same : ∀ o b, (g o).before (g b) = o.before b)
    (orders : List Order) : latest? (orders.map g) = (latest? orders).map g := by
  have fold (best : Option Order) :
      (orders.map g).foldl laterOf (best.map g) = (orders.foldl laterOf best).map g := by
    induction orders generalizing best with
    | nil => rfl
    | cons o os ih =>
        have step : laterOf (best.map g) (g o) = (laterOf best o).map g := by
          cases best with
          | none => rfl
          | some b =>
              simp only [Option.map_some, laterOf, same]
              cases o.before b <;> rfl
        rw [List.map_cons, List.foldl_cons, step]
        exact ih _
  exact fold none

theorem latest?_eq_none {orders : List Order} (missing : latest? orders = none) : orders = [] := by
  cases orders with
  | nil => rfl
  | cons b bs =>
      obtain ⟨p, last, -⟩ := foldl_laterOf bs b
      cases last.symm.trans missing

end Order

namespace OrderTable

variable {table : OrderTable} {o : Order}

theorem openOf_eq_some {wallet : String} (found : table.openOf wallet = some o) :
    o ∈ table.orders ∧ o.isOpenOf wallet = true :=
  List.mem_filter.mp (Order.latest?_mem found)

theorem openOf_eq_none {wallet : String} (missing : table.openOf wallet = none) :
    ∀ o ∈ table.orders, o.isOpenOf wallet = false := by
  intro o member
  have none_ := List.filter_eq_nil_iff.mp (Order.latest?_eq_none missing) o member
  rwa [Bool.not_eq_true] at none_

theorem openOfAmount_eq_some {wallet amount : String}
    (found : table.openOfAmount wallet amount = some o) :
    o ∈ table.orders ∧ o.isOpenOf wallet = true := by
  obtain ⟨member, fits⟩ := List.mem_filter.mp (Order.latest?_mem found)
  rw [Bool.and_eq_true] at fits
  exact ⟨member, fits.1⟩

theorem byKey_eq_some {k : EventKey} (found : table.byKey k = some o) :
    o ∈ table.orders ∧ o.key = k :=
  ⟨List.mem_of_find?_eq_some found, by simpa using List.find?_some found⟩

theorem byKey_eq_none {k : EventKey} (missing : table.byKey k = none) :
    ∀ o ∈ table.orders, o.key ≠ k := by
  intro o member
  simpa using List.find?_eq_none.mp missing o member

/-- A write that is not refused is made as it was asked for. -/
theorem eq_of_write {orders : List Order} {after : OrderTable} {done : Unit}
    (written : table.write orders = (.ok done, after)) : after = ⟨orders⟩ := by
  unfold write at written
  split at written
  · cases written
  · cases written
    rfl

theorem byCompletion_eq_none {k : EventKey} (missing : table.byCompletion k = none) :
    ∀ o ∈ table.orders, o.isCompletedBy k = false := by
  intro o member
  simpa using List.find?_eq_none.mp missing o member

end OrderTable

namespace OrderTable

/-- What all rows of a table keep to, and any two of them. -/
structure Consistent (table : OrderTable) : Prop where
  sound : ∀ o ∈ table.orders, o.Sound
  apart : table.orders.Pairwise Order.Apart

def add (o : Order) (table : OrderTable) : OrderTable :=
  ⟨table.orders ++ [o]⟩

/-- Puts a row in the place of the one of the same identity. -/
def replace (o : Order) (table : OrderTable) : OrderTable :=
  ⟨Store.changeFirst (·.id = o.id) (fun _ => o) table.orders⟩

section

variable {table : OrderTable} {o p : Order} {holds : Order → Prop}

theorem mem_add : p ∈ (table.add o).orders ↔ p ∈ table.orders ∨ p = o := by
  simp [add]

theorem forall_add (old : ∀ p ∈ table.orders, holds p) (new : holds o) :
    ∀ p ∈ (table.add o).orders, holds p := by
  intro p member
  rcases mem_add.mp member with before | rfl
  · exact old p before
  · exact new

theorem forall_replace (old : ∀ p ∈ table.orders, holds p) (new : holds o) :
    ∀ p ∈ (table.replace o).orders, holds p := by
  intro p member
  rcases Store.mem_of_mem_changeFirst member with before | ⟨_, _, _, rfl⟩
  · exact old p before
  · exact new

theorem mem_replace (member : p ∈ table.orders) (same : p.id = o.id) :
    o ∈ (table.replace o).orders :=
  Store.mem_changeFirst_of_fits member (by simpa using same)

theorem mem_replace_of_ne (member : p ∈ table.orders) (other : p.id ≠ o.id) :
    p ∈ (table.replace o).orders :=
  Store.mem_changeFirst_of_not member (by simpa using other)

end

namespace Consistent

variable {table : OrderTable} {o p : Order}

theorem empty : OrderTable.empty.Consistent :=
  ⟨by simp [OrderTable.empty], .nil⟩

theorem apart_of_ne (consistent : table.Consistent) (first : o ∈ table.orders)
    (second : p ∈ table.orders) (other : o ≠ p) : o.Apart p := by
  have symmetric : Std.Symm Order.Apart := ⟨fun _ _ apart => apart.symm⟩
  exact consistent.apart.forall first second other

theorem eq_of_id (consistent : table.Consistent) (first : o ∈ table.orders)
    (second : p ∈ table.orders) (same : o.id = p.id) : o = p := by
  by_contra other
  exact (consistent.apart_of_ne first second other).identity same

theorem eq_of_key (consistent : table.Consistent) (first : o ∈ table.orders)
    (second : p ∈ table.orders) (same : o.key = p.key) : o = p := by
  by_contra other
  exact (consistent.apart_of_ne first second other).key same

theorem add (consistent : table.Consistent) (sound : o.Sound)
    (apart : ∀ p ∈ table.orders, p.Apart o) : (table.add o).Consistent where
  sound := forall_add consistent.sound sound
  apart := by
    refine List.pairwise_append.mpr ⟨consistent.apart, List.pairwise_singleton _ _, ?_⟩
    intro p member q new
    exact List.mem_singleton.mp new ▸ apart p member

theorem replace (consistent : table.Consistent) (member : o ∈ table.orders) (same : p.id = o.id)
    (sound : p.Sound) (apart : ∀ q ∈ table.orders, o.Apart q → p.Apart q) :
    (table.replace p).Consistent where
  sound := forall_replace consistent.sound sound
  apart := by
    refine Store.pairwise_changeFirst (fun _ _ apart => apart.symm) consistent.apart ?_
    intro q among fits r other away
    obtain rfl : q = o :=
      consistent.eq_of_id among member ((of_decide_eq_true fits).trans same)
    exact apart r other away

theorem replace_self (consistent : table.Consistent) (member : o ∈ table.orders) :
    table.replace o = table := by
  rw [OrderTable.replace, Store.changeFirst_eq_self]
  intro p among same
  exact consistent.eq_of_id member among (of_decide_eq_true same).symm

/-- In a consistent table nothing stands in the way of a write. -/
theorem write_eq {orders : List Order} (consistent : Consistent ⟨orders⟩) :
    table.write orders = (.ok (), ⟨orders⟩) := by
  have single (wallet : String) : (orders.filter (·.isOpenOf wallet)).length ≤ 1 := by
    have apart := consistent.apart.sublist (List.filter_sublist (p := (·.isOpenOf wallet)))
    rcases rows : orders.filter (·.isOpenOf wallet) with _ | ⟨o, _ | ⟨p, rest⟩⟩
    · simp [rows]
    · simp [rows]
    · have here (q : Order) (among : q ∈ o :: p :: rest) : q.wallet = wallet ∧ q.isOpen = true :=
        Order.isOpenOf_iff.mp (List.mem_filter.mp (rows ▸ among)).2
      rw [rows] at apart
      obtain ⟨firstWallet, firstOpen⟩ := here o (by simp)
      obtain ⟨secondWallet, secondOpen⟩ := here p (by simp)
      have away := (List.pairwise_cons.mp apart).1 p (by simp)
      exact absurd (firstWallet.trans secondWallet.symm) (away.wallet firstOpen secondOpen)
  have none_ : secondOpen? [] orders = none :=
    Materialize.secondOpen?_eq_none fun wallet => by simpa using single wallet
  rw [write, none_]

end Consistent

theorem upsert_of_unknown {table : OrderTable} {o : Order}
    (unknown : ∀ p ∈ table.orders, p.key ≠ o.key) (consistent : (table.add o).Consistent) :
    table.upsert o = (.ok (), table.add o) := by
  rw [upsert, Store.changeOrAdd, if_neg]
  · exact consistent.write_eq
  · intro known
    obtain ⟨p, member, same⟩ := List.any_eq_true.mp known
    exact unknown p member (of_decide_eq_true same)

theorem upsert_of_known {table : OrderTable} {o p : Order} (consistent : table.Consistent)
    (member : p ∈ table.orders) (same : p.key = o.key)
    (kept : (table.replace { o with id := p.id }).Consistent) :
    table.upsert o = (.ok (), table.replace { o with id := p.id }) := by
  have known : (table.orders.any fun q => q.key = o.key) = true :=
    List.any_eq_true.mpr ⟨p, member, by simpa using same⟩
  have rewritten : Store.changeFirst (fun q => q.key = o.key) (fun q => { o with id := q.id })
      table.orders = (table.replace { o with id := p.id }).orders := by
    apply Store.changeFirst_congr
    · intro q among
      rw [Bool.eq_iff_iff, decide_eq_true_eq, decide_eq_true_eq]
      constructor
      · intro key
        rw [consistent.eq_of_key among member (key.trans same.symm)]
      · intro id
        rw [consistent.eq_of_id among member id, same]
    · intro q among key
      rw [consistent.eq_of_key among member ((of_decide_eq_true key).trans same.symm)]
  rw [upsert, Store.changeOrAdd, if_pos known, rewritten]
  exact kept.write_eq

theorem update_of_consistent {table : OrderTable} {o : Order}
    (consistent : (table.replace o).Consistent) : table.update o = (.ok (), table.replace o) :=
  consistent.write_eq

end OrderTable

end VaultTransfers
