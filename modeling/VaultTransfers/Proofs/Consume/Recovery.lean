import VaultTransfers.Proofs.Consume.Offsets
import VaultTransfers.Proofs.Consume.Turn
import VaultTransfers.Proofs.Orders.Renaming
import VaultTransfers.Proofs.Scan.Chunking
import VaultTransfers.Proofs.Session.Views

/-!
What failing calls on the table of orders cost a consumer. A call that fails
breaks an application off before it has written anything, and the message is read
again. Each failure costs a rewind and a pause at most, so a loop that is given
as many turns as there are messages and failures, and one more, reads the bus to
its end. It leaves the orders that it would have left without a failure, made
with other identities.
-/

namespace VaultTransfers

namespace Consume

open Materialize (Arrival applyAll settle)
open Program (Ends Runs)

/-- A consumer's bus and table, with what there is to count. -/
structure Station where
  bus : Bus
  orders : OrderTable
  /-- The identities that have been at hand. -/
  issued : Set OrderId
  rewinds : Nat
  /-- How many calls on the table may still fail. -/
  failures : Nat

/-- The bus is reliable; a call on the table may fail without effect, so many times. -/
def Station.serves : Service Consume.interface Station := fun c s reply t =>
  match c with
  | .bus c =>
    reply = (Bus.answer c s.bus).1 ∧
      t = { s with
        bus := (Bus.answer c s.bus).2
        rewinds := s.rewinds + (Session.isRewind c).toNat }
  | .orders c =>
    t.failures ≤ s.failures ∧ reply = (OrderTable.answer c s.orders).1 ∧
        t = { s with orders := (OrderTable.answer c s.orders).2, failures := t.failures } ∨
      t.failures < s.failures ∧ (∃ fault, reply = .error fault) ∧
        t = { s with failures := t.failures }

namespace Station

/-- With one more identity at hand. -/
def named (id : OrderId) (s : Station) : Station :=
  ⟨s.bus, s.orders, insert id s.issued, s.rewinds, s.failures⟩

/-- Behind a message that has been applied and committed. -/
def advanced (orders : OrderTable) (failures : Nat) (s : Station) : Station :=
  ⟨⟨s.bus.log, s.bus.position + 1, s.bus.position + 1⟩, orders, s.issued, s.rewinds, failures⟩

/-- Before the same message again. -/
def delayed (failures : Nat) (s : Station) : Station :=
  ⟨s.bus, s.orders, s.issued, s.rewinds + 1, failures⟩

end Station

/-- The unread deliveries are the messages, and each of them is accepted by the table that those
before it leave; the identities that the messages come with are of no order. -/
structure Awaits (as : List Arrival) (table : OrderTable) (s : Station) : Prop where
  numbered : s.bus.Numbered
  position : s.bus.position ≤ s.bus.log.length
  unread : List.Forall₂ (fun d a => Message.ofBytes d.payload = .ok a.message)
    (s.bus.log.drop s.bus.position) as
  identities : (as.map (·.fresh)).Nodup
  unused : ∀ a ∈ as, ∀ o ∈ table.orders, o.id ≠ a.fresh
  accepted : ∀ r ∈ (applyAll as table).1, ∃ applied, r = .ok applied
  issued : ∀ o ∈ s.orders.orders, o.id ∈ s.issued

/-- What there is to read, behind a table that has what was read, is waited for. -/
theorem Consumed.awaits {time : Instant} {all told : List VaultEvent} {issued : Nat}
    {as : List Arrival} {s : Reader} (consumed : Consumed time told issued as s)
    (follows : Follows all (heard told)) (keys : (all.map VaultEvent.key).Nodup)
    (rising : all.Pairwise fun a b => a.position.before b.position = true)
    (dated : ∀ e ∈ all, e.date.OnClock) (sound : ∀ e ∈ told, (Message.ofEvent e time).IsSound)
    (log : List.Forall₂ Delivery.Tells s.bus.log told) (numbered : s.bus.Numbered)
    (rewinds failures : Nat) :
    ∃ bs, bs.length = s.bus.unread ∧
      Awaits bs s.orders ⟨s.bus, s.orders, { id | id.value < issued }, rewinds, failures⟩ := by
  have shown : ∀ e ∈ told.drop s.bus.position, e.date.OnClock := fun e member =>
    dated e (follows.mem (mem_heard (List.mem_of_mem_drop member)))
  obtain ⟨bs, fresh, read, messages⟩ :=
    exists_arrivals (List.forall₂_drop s.bus.position log) shown issued
  have position := consumed.position
  rw [← log.length_eq] at position
  refine ⟨bs, ?_, numbered, position, read, ?_, ?_, ?_, consumed.id_lt⟩
  · rw [← read.length_eq, List.length_drop]
    rfl
  · rw [fresh]
    exact List.Nodup.map (fun _ _ => OrderId.mk.inj) List.nodup_range'
  · intro b member o known same
    have later : b.fresh ∈ (List.range' issued bs.length).map OrderId.mk :=
      fresh ▸ List.mem_map_of_mem member
    obtain ⟨n, inside, number⟩ := List.mem_map.mp later
    have older := consumed.id_lt o known
    rw [same, ← number] at older
    exact Nat.not_lt.mpr (List.mem_range'_1.mp inside).1 older
  · exact consumed.accepts follows keys rising sound fresh messages

section

variable {s t : Station} {as : List Arrival} {a : Arrival} {table : OrderTable}

/-- No failure is left over: either none has occurred, or fewer are still to come. -/
theorem runs_onOrders_station {α : Type} {p : Program OrderTable.interface α} {r : α}
    (run : Runs Station.serves (onOrders p) s r t) :
    Runs (Materialize.answers fun _ _ => True) p s.orders r t.orders ∧
      t = { s with orders := t.orders, failures := t.failures } ∧ t.failures ≤ s.failures ∧
      ((r, t.orders) = p.interpret OrderTable.answer s.orders ∨ t.failures < s.failures) := by
  induction p generalizing s with
  | done b =>
      obtain ⟨rfl, rfl⟩ := run
      exact ⟨⟨rfl, rfl⟩, rfl, Nat.le_refl _, .inl rfl⟩
  | call c next ih =>
      obtain ⟨reply, u, asked, rest⟩ := Program.runs_bind_iff.mp run
      have served := Program.runs_perform_iff.mp asked
      obtain ⟨later, same, fewer, outcome⟩ := ih reply rest
      rcases served with ⟨few, rfl, here⟩ | ⟨few, ⟨fault, rfl⟩, here⟩
      · rw [here] at later same outcome
        refine ⟨⟨_, _, .inl rfl, later⟩, same, Nat.le_trans fewer few, ?_⟩
        exact outcome.imp_right fun less => Nat.lt_of_lt_of_le less few
      · rw [here] at later same
        refine ⟨⟨_, _, .inr ⟨fault, trivial, rfl, rfl⟩, later⟩, same, ?_, ?_⟩
        · exact Nat.le_of_lt (Nat.lt_of_le_of_lt fewer few)
        · exact .inr (Nat.lt_of_le_of_lt fewer few)

/-- A message that the table accepts is applied and committed, or a failure less is to come and the
message is read again. -/
theorem ends_handle_station {d : Delivery} {fresh : OrderId} {m : Message}
    {applied : Materialize.Applied} {after : OrderTable}
    (decoded : Message.ofBytes d.payload = .ok m)
    (settled : settle ⟨fresh, m⟩ s.orders = (.ok applied, after)) :
    Ends Station.serves (handle fresh d) s fun ended t =>
      (ended = .proceed ∧ t.failures ≤ s.failures ∧
        t = { s with
          bus := { s.bus with committed := d.offset + 1 }
          orders := after
          failures := t.failures }) ∨
      (ended = .pause ∧ t.failures < s.failures ∧
        t = { s with
          bus := { s.bus with position := d.offset }
          rewinds := s.rewinds + 1
          failures := t.failures }) := by
  have process : Materialize.process fresh d.payload = Materialize.apply fresh m := by
    rw [Materialize.process, decoded]
  unfold handle
  rw [process]
  refine Ends.bind ?_
  intro r u run
  obtain ⟨applying, same, fewer, outcome⟩ := runs_onOrders_station run
  have carried := Materialize.runs_apply (a := ⟨fresh, m⟩) applying
  rw [settled] at carried
  cases r with
  | ok applied' =>
      have rows : u.orders = after := by
        rcases carried with carried | ⟨c, fault, -, broken, -⟩
        · exact congrArg Prod.snd carried
        · cases broken
      refine Ends.bind (Ends.perform ?_)
      rintro reply v ⟨rfl, rfl⟩
      refine Ends.pure (.inl ⟨rfl, fewer, ?_⟩)
      rw [same, rows]
      rfl
  | error fault =>
      have rows : u.orders = s.orders := by
        rcases carried with carried | ⟨c, fault, -, -, unchanged⟩
        · cases carried
        · exact unchanged
      have failed : u.failures < s.failures := by
        refine outcome.resolve_left fun reliable => ?_
        have answer := Materialize.applyTo_eq_settle ⟨fresh, m⟩ s.orders
        rw [settled] at answer
        cases (reliable.trans answer : (Except.error fault, u.orders) = (.ok applied, after))
      refine Ends.bind (Ends.perform ?_)
      rintro reply v ⟨rfl, rfl⟩
      refine Ends.pure (.inr ⟨rfl, failed, ?_⟩)
      rw [same, rows]
      rfl

/-- A turn at a message that the table accepts. -/
theorem ends_turn_station {d : Delivery} {fresh : OrderId} {m : Message}
    {applied : Materialize.Applied} {after : OrderTable}
    (numbered : s.bus.Numbered) (next : s.bus.log[s.bus.position]? = some d)
    (decoded : Message.ofBytes d.payload = .ok m)
    (settled : settle ⟨fresh, m⟩ s.orders = (.ok applied, after)) :
    Ends Station.serves (turn fresh) s fun ended t =>
      (ended = .proceed ∧ t.failures ≤ s.failures ∧ t = s.advanced after t.failures) ∨
      (ended = .pause ∧ t.failures < s.failures ∧ t = s.delayed t.failures) := by
  have offset := numbered.offset_eq next
  unfold turn
  refine Ends.bind (Ends.perform ?_)
  rintro reply u ⟨rfl, rfl⟩
  simp only [Bus.answer, next]
  have handled := ends_handle_station
    (s := { s with bus := { s.bus with position := s.bus.position + 1 } }) decoded settled
  rw [offset] at handled
  exact handled

theorem ends_turn_of_read (finished : s.bus.log[s.bus.position]? = none) (fresh : OrderId) :
    Ends Station.serves (turn fresh) s fun ended t => ended = .stop ∧ t = s := by
  unfold turn
  refine Ends.bind (Ends.perform ?_)
  rintro reply u ⟨rfl, rfl⟩
  simp only [Bus.answer, finished]
  exact Ends.pure ⟨rfl, rfl⟩

namespace Awaits

theorem finished (awaits : Awaits [] table s) :
    s.bus.position = s.bus.log.length ∧ s.bus.log[s.bus.position]? = none := by
  have none_ := List.drop_eq_nil_iff.mp (List.forall₂_nil_right_iff.mp awaits.unread)
  exact ⟨Nat.le_antisymm awaits.position none_, List.getElem?_eq_none none_⟩

theorem next (awaits : Awaits (a :: as) table s) :
    ∃ d, s.bus.log[s.bus.position]? = some d ∧ Message.ofBytes d.payload = .ok a.message ∧
      List.Forall₂ (fun d a => Message.ofBytes d.payload = .ok a.message)
        (s.bus.log.drop (s.bus.position + 1)) as := by
  obtain ⟨d, rest, decoded, behind, unread⟩ := List.forall₂_cons_right_iff.mp awaits.unread
  have here : s.bus.log[s.bus.position]? = some d := by
    rw [← List.head?_drop, unread]
    rfl
  refine ⟨d, here, decoded, ?_⟩
  rw [← List.tail_drop, unread]
  exact behind

theorem settled (awaits : Awaits (a :: as) table s) :
    ∃ applied, settle a table = (.ok applied, (settle a table).2) := by
  obtain ⟨applied, accepted⟩ := awaits.accepted (Materialize.applyTo a table).1 List.mem_cons_self
  rw [Materialize.applyTo_eq_settle] at accepted
  exact ⟨applied, Prod.ext accepted rfl⟩

end Awaits

/-- Behind the message the others wait. -/
theorem Awaits.step (awaits : Awaits (a :: as) table s) {id : OrderId} {f : Equiv.Perm OrderId}
    (rows : s.orders = table.renamed f) (fresh : id ∉ s.issued) :
    ∃ (g : Equiv.Perm OrderId) (applied : Materialize.Applied),
      (∀ i, i ≠ a.fresh → f i ∈ s.issued → g i = f i) ∧
      settle ⟨id, a.message⟩ s.orders = (.ok applied, (settle a table).2.renamed g) ∧
      ∀ failures, Awaits as (settle a table).2
        ((s.named id).advanced ((settle a table).2.renamed g) failures) := by
  obtain ⟨d, here, decoded, behind⟩ := awaits.next
  obtain ⟨applied, settled⟩ := awaits.settled
  obtain ⟨absent, distinct⟩ := List.nodup_cons.mp awaits.identities
  have named : ∀ o ∈ table.orders, f o.id ∈ s.issued := by
    intro o member
    refine awaits.issued (o.renamed f) ?_
    rw [rows]
    exact List.mem_map_of_mem member
  have away : ∀ o ∈ table.orders, f o.id ≠ id := fun o member same => fresh (same ▸ named o member)
  obtain ⟨g, kept, renamed⟩ :=
    Materialize.settle_eq_renamed (awaits.unused a List.mem_cons_self) away
  rw [settled] at renamed
  refine ⟨g, applied, fun i other known => kept i other fun same => fresh (same ▸ known), ?_, ?_⟩
  · rw [rows]
    exact renamed
  · intro failures
    refine ⟨awaits.numbered, ?_, behind, distinct, ?_, ?_, ?_⟩
    · exact (List.getElem?_eq_some_iff.mp here).1
    · intro b among
      refine Materialize.ids_of_settle (P := fun i => i ≠ b.fresh) ?_ ?_
      · exact awaits.unused b (List.mem_cons_of_mem a among)
      · exact fun same => absent (List.mem_map.mpr ⟨b, among, same.symm⟩)
    · intro r member
      refine awaits.accepted r ?_
      rw [Materialize.applyAll_cons]
      exact List.mem_cons_of_mem _ member
    · have old : ∀ o ∈ s.orders.orders, o.id ∈ insert id s.issued :=
        fun o member => Set.mem_insert_of_mem id (awaits.issued o member)
      have rows' : ∀ o ∈ (settle ⟨id, a.message⟩ s.orders).2.orders, o.id ∈ insert id s.issued :=
        Materialize.ids_of_settle (P := (· ∈ insert id s.issued)) old (Set.mem_insert id s.issued)
      rw [rows, renamed] at rows'
      exact rows'

/-- Until then it waits on. -/
theorem Awaits.again (awaits : Awaits as table s) (id : OrderId) (failures : Nat) :
    Awaits as table ((s.named id).delayed failures) :=
  { awaits with issued := fun o member => Set.mem_insert_of_mem id (awaits.issued o member) }

end

/-- The bus of a reader who has read it to its end and has committed what was left to read. -/
def drained (bus : Bus) : Bus :=
  { bus with
    position := bus.log.length
    committed := if bus.position < bus.log.length then bus.log.length else bus.committed }

theorem drained_of_read {bus : Bus} (finished : bus.position = bus.log.length) :
    drained bus = bus := by
  rw [drained, if_neg (by omega), ← finished]

theorem drained_of_next {bus : Bus} (inside : bus.position < bus.log.length) :
    drained ⟨bus.log, bus.position + 1, bus.position + 1⟩ = drained bus := by
  simp only [drained, inside, if_true]
  split
  · rfl
  · have last : bus.position + 1 = bus.log.length := by omega
    rw [last]

/-- What the loop comes to at last. The rows had the names `f` at first; whatever had a name then
keeps it. -/
structure Recovers (as : List Arrival) (table : OrderTable) (f : Equiv.Perm OrderId)
    (s t : Station) : Prop where
  bus : t.bus = drained s.bus
  rewinds : t.rewinds ≤ s.rewinds + s.failures
  orders : ∃ g : Equiv.Perm OrderId,
    (∀ i, (∀ a ∈ as, i ≠ a.fresh) → f i ∈ s.issued → g i = f i) ∧
    t.orders = (applyAll as table).2.renamed g

namespace Recovers

variable {s t : Station} {as : List Arrival} {a : Arrival} {table after : OrderTable}
  {f g : Equiv.Perm OrderId} {id : OrderId} {failures : Nat}

theorem nothing (finished : s.bus.position = s.bus.log.length) (rows : s.orders = table.renamed f)
    (id : OrderId) : Recovers [] table f s (s.named id) where
  bus := (drained_of_read finished).symm
  rewinds := Nat.le_add_right s.rewinds s.failures
  orders := ⟨f, fun _ _ _ => rfl, rows⟩

theorem of_advanced (inside : s.bus.position < s.bus.log.length) (fewer : failures ≤ s.failures)
    (kept : ∀ i, i ≠ a.fresh → f i ∈ s.issued → g i = f i)
    (recovers : Recovers as (settle a table).2 g ((s.named id).advanced after failures) t) :
    Recovers (a :: as) table f s t where
  bus := recovers.bus.trans (drained_of_next inside)
  rewinds := Nat.le_trans recovers.rewinds (Nat.add_le_add_left fewer s.rewinds)
  orders := by
    obtain ⟨h, fixes, orders⟩ := recovers.orders
    refine ⟨h, ?_, by rw [orders, Materialize.applyAll_cons]⟩
    intro i others known
    have first := kept i (others a List.mem_cons_self) known
    rw [← first]
    refine fixes i (fun b among => others b (List.mem_cons_of_mem a among)) ?_
    rw [first]
    exact Set.mem_insert_of_mem id known

theorem of_delayed (fewer : failures < s.failures)
    (recovers : Recovers as table f ((s.named id).delayed failures) t) :
    Recovers as table f s t where
  bus := recovers.bus
  rewinds := by
    have counted : t.rewinds ≤ s.rewinds + 1 + failures := recovers.rewinds
    omega
  orders := by
    obtain ⟨h, fixes, orders⟩ := recovers.orders
    refine ⟨h, ?_, orders⟩
    exact fun i others known => fixes i others (Set.mem_insert_of_mem id known)

end Recovers

section

variable {σ : Type} {answer : (c : interface.Call) → StateM σ (interface.Reply c)}
  {fresh : StateM σ OrderId} {view : σ → Station} {holds : σ → Prop}

/-- A turn of the loop goes as a turn at its station does. -/
theorem takeTurn_of_ends
    (served : ∀ c s, holds s → holds (answer c s).2 ∧
      Station.serves c (view s) (answer c s).1 (view (answer c s).2))
    (identified : ∀ s, holds s → holds (fresh s).2 ∧ (fresh s).1 ∉ (view s).issued ∧
      view (fresh s).2 = (view s).named (fresh s).1)
    {s : σ} (start : holds s) {post : Turn → Station → Prop}
    (ends : Ends Station.serves (turn (fresh s).1) ((view s).named (fresh s).1) post) :
    ∃ ended t, takeTurn answer fresh s = (ended, t) ∧ holds t ∧ post ended (view t) := by
  obtain ⟨held, -, named⟩ := identified s start
  obtain ⟨held', turned⟩ := Program.runs_interpret_of_holds view served (turn (fresh s).1) held
  rw [named] at turned
  exact ⟨_, _, rfl, held', ends _ _ turned⟩

/-- From any point on, the loop reads the bus to its end, and the rows are then those that the
messages make, under other names. -/
theorem run_of_awaits
    (served : ∀ c s, holds s → holds (answer c s).2 ∧
      Station.serves c (view s) (answer c s).1 (view (answer c s).2))
    (identified : ∀ s, holds s → holds (fresh s).2 ∧ (fresh s).1 ∉ (view s).issued ∧
      view (fresh s).2 = (view s).named (fresh s).1)
    {turns pauses : Nat} {s : σ} {as : List Arrival} {table : OrderTable} {f : Equiv.Perm OrderId}
    (start : holds s) (awaits : Awaits as table (view s)) (rows : (view s).orders = table.renamed f)
    (enough : as.length + (view s).failures < turns) (patient : (view s).failures ≤ pauses) :
    ∃ t, run answer fresh turns pauses s = (.closed, t) ∧ holds t ∧
      Recovers as table f (view s) (view t) := by
  -- each turn leaves fewer messages and failures to come
  induction turns generalizing pauses s as table f with
  | zero => exact absurd enough (Nat.not_lt_zero _)
  | succ turns ih =>
      obtain ⟨-, unused, -⟩ := identified s start
      cases as with
      | nil =>
          obtain ⟨finished, last⟩ := awaits.finished
          obtain ⟨ended, t, took, held, rfl, same⟩ :=
            takeTurn_of_ends served identified start
              (ends_turn_of_read (s := (view s).named (fresh s).1) last _)
          exact ⟨t, run_of_stopped took turns pauses, held, same ▸ .nothing finished rows _⟩
      | cons a as =>
          obtain ⟨d, here, decoded, -⟩ := awaits.next
          have inside := (List.getElem?_eq_some_iff.mp here).1
          obtain ⟨g, applied, kept, settled, behind⟩ := awaits.step rows unused
          obtain ⟨ended, t, took, held, outcome⟩ := takeTurn_of_ends served identified start
            (ends_turn_station awaits.numbered here decoded settled)
          rw [List.length_cons] at enough
          rcases outcome with ⟨rfl, fewer, same⟩ | ⟨rfl, fewer, same⟩
          · have fewer' : (view t).failures ≤ (view s).failures := fewer
            have rows' : (view t).orders = (settle a table).2.renamed g := congrArg Station.orders same
            have waiting : Awaits as (settle a table).2 (view t) := same ▸ behind (view t).failures
            obtain ⟨u, ran, held', recovers⟩ :=
              ih held waiting rows' (by omega) (Nat.le_trans fewer' patient)
            rw [same] at recovers
            exact ⟨u, (run_of_proceeded took turns pauses).trans ran, held',
              recovers.of_advanced inside fewer' kept⟩
          · have fewer' : (view t).failures < (view s).failures := fewer
            have rows' : (view t).orders = table.renamed f :=
              (congrArg Station.orders same).trans rows
            have waiting : Awaits (a :: as) table (view t) := same ▸ awaits.again _ (view t).failures
            cases pauses with
            | zero => omega
            | succ pauses =>
                have enough' : (a :: as).length + (view t).failures < turns := by
                  rw [List.length_cons]
                  omega
                have patient' : (view t).failures ≤ pauses := by omega
                obtain ⟨u, ran, held', recovers⟩ := ih held waiting rows' enough' patient'
                rw [same] at recovers
                exact ⟨u, ((run_of_paused took turns).2 pauses).trans ran, held',
                  recovers.of_delayed fewer'⟩

end

end Consume

namespace Session

open Consume (Station)

/-- How many calls the traps still fail at most. -/
def failures : List Trap → Nat
  | [] => 0
  | t :: traps => t.count + failures traps

theorem failures_spring (op : Operation) (traps : List Trap) :
    failures (spring op traps).2 ≤ failures traps ∧
      ((spring op traps).1.isSome = true → failures (spring op traps).2 < failures traps) := by
  induction traps with
  | nil => exact ⟨Nat.le_refl 0, fun sprung => absurd sprung (by simp [spring])⟩
  | cons t traps ih =>
      unfold spring
      split
      · split
        · simp [failures]
        · split
          · simp only [failures]
            omega
          · simp
      · simp only [failures]
        obtain ⟨fewer, sprung⟩ := ih
        exact ⟨by omega, fun some_ => Nat.add_lt_add_left (sprung some_) t.count⟩

/-- The world as its consumer counts in it. -/
def station (w : World) : Station :=
  ⟨w.bus, w.orders, { id | id.value < w.identities }, w.rewinds, failures w.traps⟩

/-- No trap is set on the bus. -/
def Reliable (w : World) : Prop :=
  ∀ c, busOperation c ∉ w.traps.map (·.operation)

variable {w : World}

theorem Reliable.of_operations {t : World} (reliable : Reliable w)
    (operations : t.traps.map (·.operation) = w.traps.map (·.operation)) : Reliable t := by
  intro c
  rw [operations]
  exact reliable c

theorem serves_bus (c : Bus.Call) (reliable : Reliable w) :
    Reliable (bus c w).2 ∧
      Station.serves (.bus c) (station w) (bus c w).1 (station (bus c w).2) := by
  obtain ⟨reply, t, answered⟩ : ∃ reply t, bus c w = (reply, t) := ⟨_, _, rfl⟩
  have done := answered_of_not_mem (reliable c) answered
  rw [snd_spring_of_not_mem (reliable c)] at done
  rw [answered]
  cases c with
  | next =>
      cases done
      exact ⟨reliable, rfl, rfl⟩
  | commit d =>
      cases done
      exact ⟨reliable, rfl, rfl⟩
  | rewind d =>
      cases done
      exact ⟨reliable, rfl, rfl⟩

theorem serves_orders (c : OrderTable.Call) (reliable : Reliable w) :
    Reliable (orders c w).2 ∧
      Station.serves (.orders c) (station w) (orders c w).1 (station (orders c w).2) := by
  obtain ⟨fewer, sprung⟩ := failures_spring (ordersOperation c) w.traps
  have operations := operations_spring (ordersOperation c) w.traps
  rw [orders, unlessTrapped_eq]
  cases fault : (spring (ordersOperation c) w.traps).1.bind Fault.toStore? with
  | some fault' =>
      have some_ : (spring (ordersOperation c) w.traps).1.isSome = true := by
        cases found : (spring (ordersOperation c) w.traps).1 with
        | none => rw [found] at fault; cases fault
        | some _ => rfl
      exact ⟨reliable.of_operations operations, .inr ⟨sprung some_, ⟨fault', rfl⟩, rfl⟩⟩
  | none => exact ⟨reliable.of_operations operations, .inl ⟨fewer, rfl, rfl⟩⟩

/-- A world without traps on the bus is a station. -/
theorem serves_consumer (c : Consume.interface.Call) (w : World) (reliable : Reliable w) :
    Reliable (consumer c w).2 ∧
      Station.serves c (station w) (consumer c w).1 (station (consumer c w).2) := by
  cases c with
  | bus c => exact serves_bus c reliable
  | orders c => exact serves_orders c reliable

theorem station_freshId (w : World) :
    (freshId w).1 ∉ (station w).issued ∧
      station (freshId w).2 = (station w).named (freshId w).1 := by
  have grown : { id : OrderId | id.value < w.identities + 1 } =
      insert ⟨w.identities⟩ { id : OrderId | id.value < w.identities } := by
    ext id
    obtain ⟨value⟩ := id
    simp only [Set.mem_ofPred_eq, Set.mem_insert_iff, OrderId.mk.injEq]
    omega
  refine ⟨Nat.lt_irrefl w.identities, ?_⟩
  change Station.mk w.bus w.orders { id | id.value < w.identities + 1 } _ _ = _
  rw [grown]
  rfl

end Session

namespace Consume

open Materialize (Arrival applyAll settle)
open Program (Runs)

section

variable {σ : Type} {answer : (c : interface.Call) → StateM σ (interface.Reply c)}
  {fresh : StateM σ OrderId} {view : σ → Station} {holds : σ → Prop}

/-- Calls on the table may fail, so many times. An application that fails leaves the table as it
was. The loop reads the bus to its end and has committed it then, with a rewind for a failure at
most, and the orders are those that the messages make where no call fails, but for the identities
of the new ones. -/
theorem run_despite_failures
    (served : ∀ c s, holds s → holds (answer c s).2 ∧
      Station.serves c (view s) (answer c s).1 (view (answer c s).2))
    (identified : ∀ s, holds s → holds (fresh s).2 ∧ (fresh s).1 ∉ (view s).issued ∧
      view (fresh s).2 = (view s).named (fresh s).1)
    {s : σ} {as : List Arrival} (start : holds s) (awaits : Awaits as (view s).orders (view s)) :
    (∀ fails (a : Arrival) table fault after,
      Runs (Materialize.answers fails) (Materialize.apply a.fresh a.message).run table
        (.error fault) after → after = table) ∧
    ∀ turns pauses, as.length + (view s).failures < turns → (view s).failures ≤ pauses →
      ∃ t, run answer fresh turns pauses s = (.closed, t) ∧
        (view t).bus.log = (view s).bus.log ∧
        (view t).bus.position = (view s).bus.log.length ∧
        (as ≠ [] → (view t).bus.committed = (view s).bus.log.length) ∧
        (view t).rewinds ≤ (view s).rewinds + (view s).failures ∧
        ∃ f : Equiv.Perm OrderId, (∀ o ∈ (view s).orders.orders, f o.id = o.id) ∧
          (view t).orders = (applyAll as (view s).orders).2.renamed f := by
  constructor
  · intro fails a table fault after run
    rcases Materialize.runs_apply run with settled | ⟨c, fault', -, -, same⟩
    · exact Materialize.snd_settle_of_error settled.symm
    · exact same
  · intro turns pauses enough patient
    have rows : (view s).orders = (view s).orders.renamed (Equiv.refl OrderId) :=
      (OrderTable.renamed_id _).symm
    obtain ⟨t, ran, -, bus, rewinds, f, fixes, orders⟩ :=
      run_of_awaits served identified start awaits rows enough patient
    refine ⟨t, ran, ?_, ?_, ?_, rewinds, f, ?_, orders⟩
    · rw [bus]
      rfl
    · rw [bus]
      rfl
    · intro some_
      obtain ⟨a, as, rfl⟩ := List.exists_cons_of_ne_nil some_
      obtain ⟨d, here, -⟩ := awaits.next
      rw [bus, drained, if_pos (List.getElem?_eq_some_iff.mp here).1]
    · intro o member
      exact fixes o.id (fun a among => awaits.unused a among o member) (awaits.issued o member)

end

/-- Two deposits, of which one is recorded already, and a table that fails at the first call. -/
def sampleOutage : Session.World :=
  { Session.World.start Scan.Walk.sampleSettings 1 0 0 with
    bus := ⟨[sampleDelivery 0 "w", sampleDelivery 1 "v"], 0, 0⟩
    orders := ⟨[sampleOrder]⟩
    identities := 4
    traps := [⟨.upsertOrder, 0, 1, .store (.database .timedOut)⟩] }

def sampleDeposits : List Arrival :=
  [Materialize.sampleDeposit "w" 1, Materialize.sampleDeposit "v" 2]

theorem awaits_sampleDeposits :
    Awaits sampleDeposits sampleOutage.orders (Session.station sampleOutage) where
  numbered := rfl
  position := Nat.zero_le _
  unread := .cons (ofBytes_sampleDelivery 0 "w") (.cons (ofBytes_sampleDelivery 1 "v") .nil)
  identities := by decide
  unused := by decide
  accepted := by
    have answers : (applyAll sampleDeposits sampleOutage.orders).1 =
        [.ok .depositRecorded, .ok .depositRecorded] := by decide +kernel
    simp [answers]
  issued := by
    intro o member
    rw [List.mem_singleton.mp member]
    exact (by decide : 3 < 4)

theorem run_despite_failures_of_outage :
    ∃ t, run Session.consumer Session.freshId 4 1 sampleOutage = (.closed, t) ∧
      t.bus.position = 2 ∧ t.bus.committed = 2 ∧ t.rewinds ≤ 1 ∧
      ∃ f : Equiv.Perm OrderId, f ⟨3⟩ = ⟨3⟩ ∧
        t.orders = (applyAll sampleDeposits ⟨[sampleOrder]⟩).2.renamed f := by
  have reliable : Session.Reliable sampleOutage := by
    intro c
    cases c <;> simp [sampleOutage, Session.busOperation]
  obtain ⟨t, ran, -, position, committed, rewinds, f, fixes, orders⟩ :=
    (@run_despite_failures _ Session.consumer Session.freshId Session.station Session.Reliable
      Session.serves_consumer (fun w reliable => ⟨reliable, Session.station_freshId w⟩) sampleOutage
      sampleDeposits reliable awaits_sampleDeposits).2 4 1 (by decide) (by decide)
  exact ⟨t, ran, position, committed (by decide), rewinds, f, fixes sampleOrder (by decide), orders⟩

end Consume

end VaultTransfers
