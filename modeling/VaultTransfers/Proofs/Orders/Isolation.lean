import VaultTransfers.Proofs.Orders.Direct
import VaultTransfers.Proofs.Orders.Finality

/-!
What a wallet's orders come to, whatever the messages of other wallets are and
wherever they stand between its own. Rows are looked up by keys that all wallets
share, so the reason lies in the table: each of its rows has its keys from
messages of its own wallet. But for the identities of rows, a table shows of a
wallet what the wallet's messages alone would have made.
-/

namespace VaultTransfers

namespace Order

theorem latest?_map_anonymous (orders : List Order) :
    latest? (orders.map anonymous) = (latest? orders).map anonymous := by
  have kept (o p : Order) : o.anonymous.before p.anonymous = o.before p := rfl
  exact latest?_map kept orders

end Order

namespace Materialize

/-- The messages that the row has its key and its completion from are of its own wallet. -/
structure Owned (as : List Arrival) (o : Order) : Prop where
  key : ∃ a ∈ as, a.message.key = o.key ∧ a.message.wallet = o.wallet
  completion : ∀ k, o.isCompletedBy k = true →
    ∃ a ∈ as, a.message.key = k ∧ a.message.wallet = o.wallet

/-- A table of rows that have their identities and keys from the messages so far. -/
structure Separate (as : List Arrival) (table : OrderTable) : Prop where
  kept : Kept as table
  owned : ∀ o ∈ table.orders, Owned as o

/-- The table as it was, or with one row of the wallet added or in the place of another one. -/
inductive Touches (w : String) (holds : Order → Prop) (table : OrderTable) : OrderTable → Prop
  | nothing : Touches w holds table table
  | adds {o : Order} (wallet : o.wallet = w) (new : holds o) : Touches w holds table (table.add o)
  | replaces {p o : Order} (member : p ∈ table.orders) (identity : o.id = p.id) (was : p.wallet = w)
      (wallet : o.wallet = w) (new : holds o) : Touches w holds table (table.replace o)

section

variable {table after : OrderTable} {before later as : List Arrival} {a : Arrival} {o : Order}
  {applied : Applied} {w : String}

theorem Owned.mono (owned : Owned before o) : Owned (before ++ [a]) o where
  key := by
    obtain ⟨b, among, key⟩ := owned.key
    exact ⟨b, List.mem_append_left _ among, key⟩
  completion := by
    intro k completed
    obtain ⟨b, among, key⟩ := owned.completion k completed
    exact ⟨b, List.mem_append_left _ among, key⟩

theorem Faithful.wallet_eq (faithful : Faithful as) {b : Arrival} (first : a ∈ as) (second : b ∈ as)
    (same : a.message.key = b.message.key) : a.message.wallet = b.message.wallet := by
  rw [← faithful a first b second same]

theorem Owned.wallet_of_key (owned : Owned before o) (faithful : Faithful (before ++ a :: later))
    (same : o.key = a.message.key) : o.wallet = a.message.wallet := by
  obtain ⟨b, among, key, wallet⟩ := owned.key
  rw [← wallet]
  exact faithful.wallet_eq (by simp [among]) (by simp) (key.trans same)

theorem Owned.wallet_of_completion (owned : Owned before o)
    (faithful : Faithful (before ++ a :: later)) (completed : o.isCompletedBy a.message.key = true) :
    o.wallet = a.message.wallet := by
  obtain ⟨b, among, key, wallet⟩ := owned.completion _ completed
  rw [← wallet]
  exact faithful.wallet_eq (by simp [among]) (by simp) key

theorem owned_orderOf {id : OrderId} {direction : Direction} {status : OrderStatus}
    {estimate : Option String} :
    Owned (before ++ [a]) (orderOf id a.message direction status estimate) where
  key := ⟨a, by simp, rfl, rfl⟩
  completion := by
    intro k completed
    cases completed

theorem Owned.closed (owned : Owned (before ++ [a]) o) (wallet : o.wallet = a.message.wallet) :
    Owned (before ++ [a]) (closed o a.message) where
  key := owned.key
  completion := by
    intro k completed
    exact ⟨a, by simp, isCompletedBy_closed.mp completed, wallet.symm⟩

theorem Touches.forall {holds : Order → Prop} (touches : Touches w holds table after)
    (old : ∀ o ∈ table.orders, holds o) : ∀ o ∈ after.orders, holds o := by
  cases touches with
  | nothing => exact old
  | adds _ new => exact OrderTable.forall_add old new
  | replaces _ _ _ _ new => exact OrderTable.forall_replace old new

theorem Touches.filter_of_ne {holds : Order → Prop} {v : String} (touches : Touches v holds table after)
    (consistent : table.Consistent) (other : v ≠ w) :
    after.orders.filter (·.wallet = w) = table.orders.filter (·.wallet = w) := by
  cases touches with
  | nothing => rfl
  | adds wallet _ => simp [OrderTable.add, wallet, other]
  | replaces member identity was wallet _ =>
      refine Store.filter_changeFirst_of_outside ?_
      intro q among same
      obtain rfl := consistent.eq_of_id among member ((of_decide_eq_true same).trans identity)
      simp [was, wallet, other]

/-- A change is about rows of the message's wallet. -/
theorem Change.touches (change : Change a table applied after)
    (owned : ∀ o ∈ table.orders, Owned before o) (faithful : Faithful (before ++ a :: later)) :
    Touches a.message.wallet (Owned (before ++ [a])) table after := by
  cases change with
  | depositAdded _ _ => exact .adds rfl owned_orderOf
  | @depositRewritten p _ member key =>
      exact .replaces member rfl ((owned p member).wallet_of_key faithful key) rfl owned_orderOf
  | requestOpened _ _ _ => exact .adds rfl owned_orderOf
  | @requestRevised p _ member _ _ meant =>
      have wallet : p.wallet = a.message.wallet := by
        rcases meant with key | ⟨wallet, -⟩
        · exact (owned p member).wallet_of_key faithful key
        · exact wallet
      refine .replaces member rfl wallet wallet ?_
      exact ⟨⟨a, by simp, rfl, wallet.symm⟩, (owned p member).mono.completion⟩
  | requestIgnored _ _ _ => exact .nothing
  | @withdrawalCompleted p _ member isOpen _ _ =>
      have wallet := (Order.isOpenOf_iff.mp isOpen).1
      exact .replaces member rfl wallet wallet ((owned p member).mono.closed wallet)
  | completionRecorded _ _ _ _ => exact .adds rfl (owned_orderOf.closed rfl)
  | completionIgnored _ _ _ => exact .nothing

theorem separate_empty : Separate [] .empty :=
  ⟨kept_empty, fun _ member => absurd member List.not_mem_nil⟩

theorem Separate.touches (separate : Separate before table)
    (identities : ((before ++ a :: later).map (·.fresh)).Nodup)
    (faithful : Faithful (before ++ a :: later)) :
    Touches a.message.wallet (Owned (before ++ [a])) table (settle a table).2 := by
  by_cases sound : a.message.IsSound
  · obtain ⟨applied, after, settled, change⟩ :=
      settle_of_isSound separate.kept.consistent (separate.kept.issued.unused identities) sound
    rw [settled]
    exact change.touches separate.owned faithful
  · obtain ⟨fault, settled, -⟩ := settle_of_not_isSound sound table
    rw [settled]
    exact .nothing

theorem Separate.settle (separate : Separate before table)
    (identities : ((before ++ a :: later).map (·.fresh)).Nodup)
    (faithful : Faithful (before ++ a :: later)) :
    Separate (before ++ [a]) (settle a table).2 where
  kept := separate.kept.settle identities
  owned := (separate.touches identities faithful).forall fun o member =>
    (separate.owned o member).mono

end

/-- But for identities, the rows of the wallet in the one table are all that the other has. -/
def Shows (w : String) (table alone : OrderTable) : Prop :=
  (table.orders.filter (·.wallet = w)).map Order.anonymous = alone.orders.map Order.anonymous

section

variable {w : String} {table alone : OrderTable}

/-- What does not ask for identities finds the same rows in both tables. -/
theorem Shows.filter {q : Order → Bool} (shows : Shows w table alone)
    (blind : ∀ o : Order, q o.anonymous = q o) (mine : ∀ o ∈ table.orders, q o = true → o.wallet = w) :
    (table.orders.filter q).map Order.anonymous = (alone.orders.filter q).map Order.anonymous := by
  have among (orders : List Order) :
      (orders.map Order.anonymous).filter q = (orders.filter q).map Order.anonymous := by
    rw [List.filter_map]
    exact congrArg (List.map _) (List.filter_congr fun o _ => blind o)
  have rows : (table.orders.filter (·.wallet = w)).filter q = table.orders.filter q := by
    rw [List.filter_filter]
    refine List.filter_congr fun o member => ?_
    cases fits : q o with
    | true => simp [mine o member fits]
    | false => rfl
  rw [← rows, ← among, ← among]
  exact congrArg (List.filter q) shows

theorem Shows.find? {q : Order → Bool} (shows : Shows w table alone)
    (blind : ∀ o : Order, q o.anonymous = q o) (mine : ∀ o ∈ table.orders, q o = true → o.wallet = w) :
    (table.orders.find? q).map Order.anonymous = (alone.orders.find? q).map Order.anonymous := by
  rw [← List.head?_filter, ← List.head?_filter, ← List.head?_map, ← List.head?_map,
    shows.filter blind mine]

theorem Shows.latest? {q : Order → Bool} (shows : Shows w table alone)
    (blind : ∀ o : Order, q o.anonymous = q o) (mine : ∀ o ∈ table.orders, q o = true → o.wallet = w) :
    (Order.latest? (table.orders.filter q)).map Order.anonymous =
      (Order.latest? (alone.orders.filter q)).map Order.anonymous := by
  rw [← Order.latest?_map_anonymous, ← Order.latest?_map_anonymous, shows.filter blind mine]

theorem Shows.openOf (shows : Shows w table alone) :
    (table.openOf w).map Order.anonymous = (alone.openOf w).map Order.anonymous :=
  shows.latest? (fun _ => rfl) fun _ _ isOpen => (Order.isOpenOf_iff.mp isOpen).1

theorem Shows.openIn {m : Message} (shows : Shows m.wallet table alone) :
    (openIn table m).map Order.anonymous = (openIn alone m).map Order.anonymous := by
  have ofAmount : (table.openOfAmount m.wallet m.amount).map Order.anonymous =
      (alone.openOfAmount m.wallet m.amount).map Order.anonymous := by
    refine shows.latest? (fun _ => rfl) fun o _ fits => ?_
    rw [Bool.and_eq_true] at fits
    exact (Order.isOpenOf_iff.mp fits.1).1
  rw [Materialize.openIn, Materialize.openIn, Option.map_or, Option.map_or, ofAmount, shows.openOf]

theorem Shows.byKey {k : EventKey} (shows : Shows w table alone)
    (mine : ∀ o ∈ table.orders, o.key = k → o.wallet = w) :
    (table.byKey k).map Order.anonymous = (alone.byKey k).map Order.anonymous :=
  shows.find? (fun _ => rfl) fun o member same => mine o member (of_decide_eq_true same)

/-- The rows of one key are rewritten in both tables. -/
theorem Shows.changeFirst {k : EventKey} {f g : Order → Order} {new : Order}
    (shows : Shows w table alone) (mine : ∀ o ∈ table.orders, o.key = k → o.wallet = w)
    (wallet : new.wallet = w) (here : ∀ o, (f o).anonymous = new.anonymous)
    (there : ∀ o, (g o).anonymous = new.anonymous) :
    Shows w ⟨Store.changeFirst (·.key = k) f table.orders⟩
      ⟨Store.changeFirst (·.key = k) g alone.orders⟩ := by
  have within : ∀ o ∈ table.orders, decide (o.key = k) = true →
      decide (o.wallet = w) = true ∧ decide ((f o).wallet = w) = true := by
    intro o member same
    have kept : (f o).anonymous.wallet = new.anonymous.wallet := congrArg Order.wallet (here o)
    have changed : (f o).wallet = w := kept.trans wallet
    simp [mine o member (of_decide_eq_true same), changed]
  have anonymously {h : Order → Order} (same : ∀ o, (h o).anonymous = new.anonymous)
      (orders : List Order) :
      (Store.changeFirst (·.key = k) h orders).map Order.anonymous =
        Store.changeFirst (·.key = k) (fun _ => new.anonymous) (orders.map Order.anonymous) :=
    Store.map_changeFirst_of_comm (p := (·.key = k)) (fun _ => rfl) same orders
  calc ((Store.changeFirst (·.key = k) f table.orders).filter (·.wallet = w)).map Order.anonymous
      = (Store.changeFirst (·.key = k) f (table.orders.filter (·.wallet = w))).map
          Order.anonymous := by rw [Store.filter_changeFirst within]
    _ = Store.changeFirst (·.key = k) (fun _ => new.anonymous)
          ((table.orders.filter (·.wallet = w)).map Order.anonymous) := anonymously here _
    _ = Store.changeFirst (·.key = k) (fun _ => new.anonymous)
          (alone.orders.map Order.anonymous) := by rw [shows]
    _ = (Store.changeFirst (·.key = k) g alone.orders).map Order.anonymous :=
        (anonymously there _).symm

theorem Shows.changeOrAdd {o p : Order} (shows : Shows w table alone)
    (mine : ∀ q ∈ table.orders, q.key = o.key → q.wallet = w) (wallet : o.wallet = w)
    (same : o.anonymous = p.anonymous) :
    Shows w
      ⟨Store.changeOrAdd (·.key = o.key) (fun old => { o with id := old.id }) o table.orders⟩
      ⟨Store.changeOrAdd (·.key = p.key) (fun old => { p with id := old.id }) p alone.orders⟩ := by
  have key : p.key = o.key := (congrArg Order.key same).symm
  have known : table.orders.any (·.key = o.key) = alone.orders.any (·.key = o.key) := by
    have found := congrArg Option.isSome (shows.byKey mine)
    rwa [Option.isSome_map, Option.isSome_map, OrderTable.byKey, OrderTable.byKey,
      List.isSome_find?, List.isSome_find?] at found
  unfold Store.changeOrAdd
  rw [key, known]
  split
  · exact shows.changeFirst mine wallet (fun _ => rfl) fun _ => same.symm
  · have added : [o].filter (·.wallet = w) = [o] := by simp [wallet]
    rw [Shows, List.filter_append, List.map_append, List.map_append, added, shows]
    simp [same]

/-- A row is found in both tables, and is rewritten in both. -/
theorem Shows.replace {q r o p : Order} (shows : Shows w table alone)
    (consistent : table.Consistent) (consistent' : alone.Consistent) (member : q ∈ table.orders)
    (member' : r ∈ alone.orders) (found : q.anonymous = r.anonymous) (was : q.wallet = w)
    (identity : o.id = q.id) (identity' : p.id = r.id) (wallet : o.wallet = w)
    (same : o.anonymous = p.anonymous) : Shows w (table.replace o) (alone.replace p) := by
  -- the row has another identity in each of the tables, but its key in both
  have key : r.key = q.key := (congrArg Order.key found).symm
  have byKey {table : OrderTable} (consistent : table.Consistent) {q o : Order}
      (member : q ∈ table.orders) (identity : o.id = q.id) :
      table.replace o = ⟨Store.changeFirst (·.key = q.key) (fun _ => o) table.orders⟩ := by
    refine congrArg OrderTable.mk (Store.changeFirst_congr ?_ fun _ _ _ => rfl)
    intro s among
    rw [Bool.eq_iff_iff, decide_eq_true_eq, decide_eq_true_eq, identity]
    constructor
    · intro id
      rw [consistent.eq_of_id among member id]
    · intro key
      rw [consistent.eq_of_key among member key]
  rw [byKey consistent member identity, byKey consistent' member' identity', key]
  refine shows.changeFirst ?_ wallet (fun _ => rfl) fun _ => same.symm
  intro s among key
  rw [consistent.eq_of_key among member key, was]

/-- The verdicts are the same but for the identities of rows, and are about rows of the wallet. -/
inductive Verdict.Agrees (w : String) (table alone : OrderTable) : Verdict → Verdict → Prop
  | ignores (applied : Applied) : Agrees w table alone ⟨applied, none⟩ ⟨applied, none⟩
  | writes {o p : Order} (applied : Applied)
      (mine : ∀ q ∈ table.orders, q.key = o.key → q.wallet = w) (wallet : o.wallet = w)
      (same : o.anonymous = p.anonymous) :
      Agrees w table alone ⟨applied, some (.upsert o)⟩ ⟨applied, some (.upsert p)⟩
  | rewrites {q r o p : Order} (applied : Applied) (member : q ∈ table.orders)
      (member' : r ∈ alone.orders) (found : q.anonymous = r.anonymous) (was : q.wallet = w)
      (identity : o.id = q.id) (identity' : p.id = r.id) (wallet : o.wallet = w)
      (same : o.anonymous = p.anonymous) :
      Agrees w table alone ⟨applied, some (.update o)⟩ ⟨applied, some (.update p)⟩

theorem answer_of_carryOut {applied r : Applied} {c : OrderTable.Call} {after : OrderTable}
    (carried : (Verdict.mk applied (some c)).carryOut table = (.ok r, after)) :
    ∃ value, OrderTable.answer c table = (.ok value, after) := by
  simp only [Verdict.carryOut] at carried
  split at carried
  · rename_i value next answered
    cases carried
    exact ⟨value, answered⟩
  · cases carried

theorem Shows.carryOut {v v' : Verdict} {r r' : Applied} {after after' : OrderTable}
    (shows : Shows w table alone) (consistent : table.Consistent) (consistent' : alone.Consistent)
    (agrees : Verdict.Agrees w table alone v v') (carried : v.carryOut table = (.ok r, after))
    (carried' : v'.carryOut alone = (.ok r', after')) : Shows w after after' := by
  cases agrees with
  | ignores applied =>
      cases carried
      cases carried'
      exact shows
  | writes applied mine wallet same =>
      obtain ⟨_, answered⟩ := answer_of_carryOut carried
      obtain ⟨_, answered'⟩ := answer_of_carryOut carried'
      obtain rfl := OrderTable.eq_of_write answered
      obtain rfl := OrderTable.eq_of_write answered'
      exact shows.changeOrAdd mine wallet same
  | rewrites applied member member' found was identity identity' wallet same =>
      obtain ⟨_, answered⟩ := answer_of_carryOut carried
      obtain ⟨_, answered'⟩ := answer_of_carryOut carried'
      obtain rfl := OrderTable.eq_of_write answered
      obtain rfl := OrderTable.eq_of_write answered'
      exact shows.replace consistent consistent' member member' found was identity identity' wallet
        same

end

theorem exists_of_map_anonymous {x y : Option Order}
    (same : x.map Order.anonymous = y.map Order.anonymous) :
    x = none ∧ y = none ∨ ∃ o p, x = some o ∧ y = some p ∧ o.anonymous = p.anonymous := by
  cases x with
  | none => exact .inl ⟨rfl, Option.map_eq_none_iff.mp same.symm⟩
  | some o =>
      obtain ⟨p, there, alike⟩ := Option.map_eq_some_iff.mp same.symm
      exact .inr ⟨o, p, rfl, there, alike.symm⟩

section

variable {table alone : OrderTable} {before later others more as bs : List Arrival} {a b : Arrival}

theorem Shows.agrees_request (shows : Shows a.message.wallet table alone)
    (mine : ∀ o ∈ table.orders, o.key = a.message.key → o.wallet = a.message.wallet)
    (message : b.message = a.message) (estimate : Option String) :
    Verdict.Agrees a.message.wallet table alone (requestVerdict a estimate table)
      (requestVerdict b estimate alone) := by
  unfold requestVerdict
  rw [message]
  rcases exists_of_map_anonymous (shows.byKey mine) with
    ⟨unknown, unknown'⟩ | ⟨o, p, known, known', same⟩
  · rw [unknown, unknown']
    rcases exists_of_map_anonymous shows.openIn with
      ⟨noneOpen, noneOpen'⟩ | ⟨o, p, found, found', same⟩
    · rw [noneOpen, noneOpen']
      exact .writes _ mine rfl rfl
    · obtain ⟨member, isOpen⟩ := openIn_eq_some found
      have wallet := (Order.isOpenOf_iff.mp isOpen).1
      have position : p.position = o.position := (congrArg Order.position same).symm
      rw [found, found']
      simp only [position]
      split
      · exact .ignores _
      · exact .rewrites _ member (openIn_eq_some found').1 same wallet rfl rfl wallet
          (congrArg (revised · a.message estimate) same)
  · obtain ⟨member, key⟩ := OrderTable.byKey_eq_some known
    have wallet := mine o member key
    have status : p.status = o.status := (congrArg Order.status same).symm
    rw [known, known']
    simp only [status]
    split
    · exact .ignores _
    · exact .rewrites _ member (OrderTable.byKey_eq_some known').1 same wallet rfl rfl wallet
        (congrArg (revised · a.message estimate) same)

theorem Shows.agrees_fulfilment (shows : Shows a.message.wallet table alone)
    (mine : ∀ o ∈ table.orders, o.key = a.message.key → o.wallet = a.message.wallet)
    (completed : ∀ o ∈ table.orders, o.isCompletedBy a.message.key = true →
      o.wallet = a.message.wallet) (message : b.message = a.message) :
    Verdict.Agrees a.message.wallet table alone (fulfilmentVerdict a table)
      (fulfilmentVerdict b alone) := by
  have byKey := congrArg Option.isSome (shows.byKey mine)
  have byCompletion : ((table.byCompletion a.message.key).map Order.anonymous).isSome =
      ((alone.byCompletion a.message.key).map Order.anonymous).isSome :=
    congrArg Option.isSome (shows.find? (fun _ => rfl) completed)
  rw [Option.isSome_map, Option.isSome_map] at byKey byCompletion
  unfold fulfilmentVerdict
  rw [message, byKey, byCompletion]
  split
  · exact .ignores _
  · rcases exists_of_map_anonymous shows.openOf with
      ⟨noneOpen, noneOpen'⟩ | ⟨o, p, found, found', same⟩
    · rw [noneOpen, noneOpen']
      exact .writes _ mine rfl rfl
    · obtain ⟨member, isOpen⟩ := OrderTable.openOf_eq_some found
      have wallet := (Order.isOpenOf_iff.mp isOpen).1
      rw [found, found']
      exact .rewrites _ member (OrderTable.openOf_eq_some found').1 same wallet rfl rfl wallet
        (congrArg (closed · a.message) same)

/-- A message of the wallet does to both tables the same. -/
theorem Shows.settle (shows : Shows a.message.wallet table alone) (separate : Separate before table)
    (kept : Kept others alone) (identities : ((before ++ a :: later).map (·.fresh)).Nodup)
    (identities' : ((others ++ b :: more).map (·.fresh)).Nodup)
    (faithful : Faithful (before ++ a :: later)) (message : b.message = a.message) :
    Shows a.message.wallet (settle a table).2 (settle b alone).2 := by
  by_cases sound : a.message.IsSound
  · have sound' : b.message.IsSound := message ▸ sound
    obtain ⟨r, after, settled, -⟩ :=
      settle_of_isSound separate.kept.consistent (separate.kept.issued.unused identities) sound
    obtain ⟨r', after', settled', -⟩ :=
      settle_of_isSound kept.consistent (kept.issued.unused identities') sound'
    have mine : ∀ o ∈ table.orders, o.key = a.message.key → o.wallet = a.message.wallet :=
      fun o member => (separate.owned o member).wallet_of_key faithful
    have completed : ∀ o ∈ table.orders, o.isCompletedBy a.message.key = true →
        o.wallet = a.message.wallet :=
      fun o member => (separate.owned o member).wallet_of_completion faithful
    rw [settled, settled']
    rw [Materialize.settle, verdict_of_isSound sound] at settled
    rw [Materialize.settle, verdict_of_isSound sound', message] at settled'
    refine shows.carryOut separate.kept.consistent kept.consistent ?_ settled settled'
    cases a.message.kind with
    | deposit =>
        unfold depositVerdict
        rw [message]
        exact .writes _ mine rfl rfl
    | withdrawalRequested => exact shows.agrees_request mine message _
    | withdrawalCompleted => exact shows.agrees_fulfilment mine completed message
  · have unsound' : ¬ b.message.IsSound := message ▸ sound
    obtain ⟨fault, settled, -⟩ := settle_of_not_isSound sound table
    obtain ⟨fault', settled', -⟩ := settle_of_not_isSound unsound' alone
    rw [settled, settled']
    exact shows

/-- The wallet's messages go by in both runs, the others in one of them. -/
theorem Shows.applyAll {w : String} (shows : Shows w table alone) (separate : Separate before table)
    (kept : Kept others alone) (identities : ((before ++ as).map (·.fresh)).Nodup)
    (identities' : ((others ++ bs).map (·.fresh)).Nodup) (faithful : Faithful (before ++ as))
    (messages : bs.map (·.message) = (ofWallet w as).map (·.message)) :
    Shows w (applyAll as table).2 (applyAll bs alone).2 := by
  -- a message of the wallet is a step of both runs, any other a step of the first one only
  induction as generalizing before others bs table alone with
  | nil =>
      obtain rfl : bs = [] := List.map_eq_nil_iff.mp messages
      exact shows
  | cons a as ih =>
      have next := separate.settle identities faithful
      rw [applyAll_cons]
      have identities₂ := identities
      have faithful₂ := faithful
      rw [List.append_cons] at identities₂ faithful₂
      by_cases same : a.message.wallet = w
      · subst same
        rw [ofWallet, List.filter_cons_of_pos (by simp)] at messages
        obtain ⟨b, bs, rfl, message, messages⟩ := List.map_eq_cons_iff.mp messages
        have rows := shows.settle separate kept identities identities' faithful message
        have kept₂ := kept.settle identities'
        rw [applyAll_cons]
        rw [List.append_cons] at identities'
        exact ih rows next kept₂ identities₂ identities' faithful₂ messages
      · rw [ofWallet, List.filter_cons_of_neg (by simpa using same)] at messages
        have rows : Shows w (Materialize.settle a table).2 alone := by
          rw [Shows, (separate.touches identities faithful).filter_of_ne separate.kept.consistent same]
          exact shows
        exact ih rows next kept identities₂ identities' faithful₂ messages

theorem shows_applyAll {w : String} (identities : (as.map (·.fresh)).Nodup)
    (identities' : (bs.map (·.fresh)).Nodup) (faithful : Faithful as)
    (messages : bs.map (·.message) = (ofWallet w as).map (·.message)) :
    Shows w (applyAll as .empty).2 (applyAll bs .empty).2 := by
  have start : Shows w .empty .empty := rfl
  exact start.applyAll separate_empty kept_empty identities identities' faithful messages

/-- The messages that were applied, without those that came to an error. -/
def taken : List Arrival → List (Except Fault Applied) → List Arrival
  | a :: as, .ok _ :: results => a :: taken as results
  | _ :: as, .error _ :: results => taken as results
  | _, _ => []

theorem taken_sublist (as : List Arrival) (results : List (Except Fault Applied)) :
    (taken as results).Sublist as := by
  fun_induction taken as results with
  | case1 a as applied results ih => exact ih.cons_cons a
  | case2 a as fault results ih => exact ih.cons a
  | case3 as results _ _ => exact List.nil_sublist as

/-- Whatever fails in a run, it comes to the messages that were applied. -/
theorem eq_applyAll_taken {fails : OrderTable.Call → StoreFault → Prop}
    {results : List (Except Fault Applied)} {after : OrderTable}
    (run : Program.Runs (answers fails) (applyEach as) table results after) :
    after = (applyAll (taken as results) table).2 := by
  induction as generalizing table results with
  | nil =>
      obtain ⟨-, rfl⟩ := run
      rfl
  | cons a as ih =>
      obtain ⟨r, next, rest, first, second, rfl⟩ := runs_applyEach_cons.mp run
      rw [ih second]
      cases r with
      | error fault =>
          have unchanged : next = table := by
            rcases runs_apply first with settled | ⟨_, _, _, _, unchanged⟩
            · exact snd_settle_of_error settled.symm
            · exact unchanged
          rw [unchanged]
          rfl
      | ok applied =>
          rcases runs_apply first with settled | ⟨_, _, _, failed, _⟩
          · change _ = (applyAll (a :: taken as rest) table).2
            rw [applyAll_cons, ← settled]
          · cases failed

/-- Lists of messages in which each wallet has the same ones. -/
def SameByWallet (as bs : List Arrival) : Prop :=
  ∀ w, (ofWallet w bs).map (·.message) = (ofWallet w as).map (·.message)

theorem SameByWallet.faithful (same : SameByWallet as bs) (faithful : Faithful as) :
    Faithful bs := by
  have known : ∀ b ∈ bs, ∃ a ∈ as, a.message = b.message := by
    intro b member
    have among : b.message ∈ (ofWallet b.message.wallet bs).map (·.message) :=
      List.mem_map_of_mem (mem_ofWallet.mpr ⟨member, rfl⟩)
    rw [same] at among
    obtain ⟨a, a_mem, message⟩ := List.mem_map.mp among
    exact ⟨a, (mem_ofWallet.mp a_mem).1, message⟩
  intro b member c member' key
  obtain ⟨a, a_mem, message⟩ := known b member
  obtain ⟨d, d_mem, message'⟩ := known c member'
  rw [← message, ← message'] at key ⊢
  exact faithful a a_mem d d_mem key

/-- Rows that are the same wallet by wallet are the same but for their order. -/
theorem perm_of_filter_wallet {orders others : List Order}
    (same : ∀ w, (orders.filter (·.wallet = w)).map Order.anonymous =
      (others.filter (·.wallet = w)).map Order.anonymous) :
    (orders.map Order.anonymous).Perm (others.map Order.anonymous) := by
  refine List.perm_iff_count.mpr fun o => ?_
  have count (rows : List Order) : (rows.map Order.anonymous).count o =
      ((rows.filter (·.wallet = o.wallet)).map Order.anonymous).count o := by
    have own : decide (o.wallet = o.wallet) = true := decide_eq_true rfl
    rw [← List.count_filter (p := fun q : Order => q.wallet = o.wallet) own, List.filter_map]
    rfl
  rw [count orders, count others, same]

/-- The rows of a wallet are, but for their identities, those that its messages alone would have
left; where calls fail, those that its messages without the failed ones would have left. So the
table is the same, but for identities and the order of rows, in whatever order the messages of
different wallets come. -/
theorem rows_of_wallet_alone (identities : (as.map (·.fresh)).Nodup) (faithful : Faithful as) :
    (∀ w bs, (bs.map (·.fresh)).Nodup → bs.map (·.message) = (ofWallet w as).map (·.message) →
      ((applyAll as .empty).2.orders.filter (·.wallet = w)).map Order.anonymous =
        (applyAll bs .empty).2.orders.map Order.anonymous) ∧
    (∀ fails results table, Program.Runs (answers fails) (applyEach as) .empty results table →
      ∀ w bs, (bs.map (·.fresh)).Nodup →
        bs.map (·.message) = (ofWallet w (taken as results)).map (·.message) →
          (table.orders.filter (·.wallet = w)).map Order.anonymous =
            (applyAll bs .empty).2.orders.map Order.anonymous) ∧
    ∀ bs, (bs.map (·.fresh)).Nodup → SameByWallet as bs →
      ((applyAll bs .empty).2.orders.map Order.anonymous).Perm
        ((applyAll as .empty).2.orders.map Order.anonymous) := by
  refine ⟨fun w bs identities' messages => ?_, ?_, fun bs identities' same => ?_⟩
  · exact shows_applyAll identities identities' faithful messages
  · intro fails results table run w bs identities' messages
    have sublist := taken_sublist as results
    rw [eq_applyAll_taken run]
    refine shows_applyAll (identities.sublist (sublist.map _)) identities' ?_ messages
    exact fun a among b present => faithful a (sublist.subset among) b (sublist.subset present)
  · refine perm_of_filter_wallet fun w => ?_
    have own : ((ofWallet w bs).map (·.fresh)).Nodup :=
      identities'.sublist (List.filter_sublist.map _)
    have first := shows_applyAll identities own faithful (same w)
    have second := shows_applyAll identities' own (same.faithful faithful) rfl
    exact second.trans first.symm

end

/-- Withdrawals of two wallets, one of whose requests comes twice. -/
def sampleMingled : List Arrival :=
  [sampleRequest "w" 1, sampleRequest "v" 2, sampleFulfilment "w" 3, sampleFulfilment "v" 4] ++
    [sampleReplay (sampleRequest "v" 2)]

/-- The same messages, one wallet behind the other. -/
def sampleSorted : List Arrival :=
  [sampleRequest "w" 1, sampleFulfilment "w" 3, sampleRequest "v" 2, sampleFulfilment "v" 4,
    sampleReplay (sampleRequest "v" 2)]

theorem rows_of_wallet_alone_of_two_wallets :
    (applyAll sampleMingled .empty).2.orders.length = 2 ∧
      ((applyAll sampleMingled .empty).2.orders.filter (·.wallet = "v")).map Order.anonymous =
        (applyAll (ofWallet "v" sampleMingled) .empty).2.orders.map Order.anonymous ∧
      ((applyAll sampleSorted .empty).2.orders.map Order.anonymous).Perm
        ((applyAll sampleMingled .empty).2.orders.map Order.anonymous) := by
  have faithful : Faithful sampleMingled := by
    refine Faithful.append (faithful_of_nodup (by decide)) ?_
    intro b member
    rw [List.mem_singleton.mp member]
    exact ⟨sampleRequest "v" 2, by simp, rfl⟩
  have same : SameByWallet sampleMingled sampleSorted := by
    have wallets : ∀ a ∈ sampleMingled ++ sampleSorted,
        a.message.wallet = "w" ∨ a.message.wallet = "v" := by decide
    intro w
    by_cases known : w = "w" ∨ w = "v"
    · rcases known with rfl | rfl <;> rfl
    · have none_ {as : List Arrival} (among : as ⊆ sampleMingled ++ sampleSorted) :
          ofWallet w as = [] := by
        refine List.filter_eq_nil_iff.mpr fun a member here => known ?_
        rw [← of_decide_eq_true here]
        exact wallets a (among member)
      rw [none_ (List.subset_append_left _ _), none_ (List.subset_append_right _ _)]
  obtain ⟨alone, -, sorted⟩ := @rows_of_wallet_alone sampleMingled (by decide) faithful
  exact ⟨by decide +kernel, alone "v" _ (by decide) rfl, sorted sampleSorted (by decide) same⟩

end Materialize

end VaultTransfers
