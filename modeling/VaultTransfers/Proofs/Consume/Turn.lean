import VaultTransfers.Pipeline.Consume
import VaultTransfers.Proofs.Codec.Message
import VaultTransfers.Proofs.Orders.Replay
import VaultTransfers.Proofs.Transfer.Stream

/-!
Turns of the consumer on a bus that tells each wallet's events in their order,
some of them more than once. Whatever fails, the table of orders has what has
been heard of the messages that were read; what failed is read again.
-/

namespace VaultTransfers

namespace Materialize

/-- The time of publication is nothing that an application goes by. -/
theorem settle_ofEvent (fresh : OrderId) (e : VaultEvent) (t u : Instant) (table : OrderTable) :
    settle ⟨fresh, .ofEvent e t⟩ table = settle ⟨fresh, .ofEvent e u⟩ table := rfl

theorem isSound_of_settle {a : Arrival} {table after : OrderTable} {applied : Applied}
    (settled : settle a table = (.ok applied, after)) : a.message.IsSound := by
  unfold settle verdict at settled
  unfold Message.IsSound
  cases read : a.message.payload with
  | error fault =>
      simp only [read] at settled
      cases settled
  | ok payload =>
      cases payload with
      | deposit _ => trivial
      | withdrawalCompleted _ => trivial
      | withdrawalRequested request =>
          simp only [read] at settled
          cases computed : Amount.estimate a.message.amount request.minPrice with
          | error fault =>
              simp only [computed] at settled
              cases settled
          | ok estimate => exact ⟨estimate, computed⟩

end Materialize

namespace Consume

open Program (Ends)
open Materialize (Arrival History Mirrors)

structure Reader where
  bus : Bus
  orders : OrderTable

/-- The answers that a consumer may get; any call but a rewind may fail without effect. -/
def Reader.serves : Service Consume.interface Reader := fun c s reply t =>
  match c with
  | .bus c =>
    reply = (Bus.answer c s.bus).1 ∧ t = { s with bus := (Bus.answer c s.bus).2 } ∨
      (∀ d, c ≠ .rewind d) ∧ (∃ fault, reply = .error fault) ∧ t = s
  | .orders c =>
    Materialize.answers (fun _ _ => True) c s.orders reply t.orders ∧ t.bus = s.bus

/-- The table of orders has what has been heard of the messages up to the position; `as` are the
messages that count, with the identities that they came with. -/
structure Consumed (time : Instant) (told : List VaultEvent) (issued : Nat) (as : List Arrival)
    (s : Reader) : Prop where
  position : s.bus.position ≤ told.length
  messages : as.map (·.message) =
    (heard (told.take s.bus.position)).map fun e => Message.ofEvent e time
  identities : ∀ a ∈ as, a.fresh.value < issued
  history : History as
  mirrors : Mirrors s.orders as

theorem runs_onOrders {α : Type} {p : Program OrderTable.interface α} {s t : Reader} {a : α}
    (run : Program.Runs Reader.serves (onOrders p) s a t) :
    Program.Runs (Materialize.answers fun _ _ => True) p s.orders a t.orders ∧ t.bus = s.bus := by
  induction p generalizing s with
  | done b =>
      obtain ⟨rfl, rfl⟩ := run
      exact ⟨⟨rfl, rfl⟩, rfl⟩
  | call c next ih =>
      obtain ⟨r, u, asked, rest⟩ := Program.runs_bind_iff.mp run
      obtain ⟨answered, bus⟩ := Program.runs_perform_iff.mp asked
      obtain ⟨later, bus'⟩ := ih r rest
      exact ⟨⟨r, u.orders, answered, later⟩, bus'.trans bus⟩

section

variable {time : Instant} {all told : List VaultEvent} {issued : Nat} {as : List Arrival}
  {s : Reader}

theorem consumed_empty (time : Instant) (issued : Nat) :
    Consumed time [] issued [] ⟨.empty, .empty⟩ where
  position := Nat.le_refl 0
  messages := rfl
  identities := fun _ none_ => absurd none_ List.not_mem_nil
  history := ⟨.nil, .nil, fun _ none_ => absurd none_ List.not_mem_nil, .nil⟩
  mirrors := Materialize.mirrors_empty

theorem Consumed.of_issued (consumed : Consumed time told issued as s) :
    Consumed time told (issued + 1) as s :=
  { consumed with identities := fun a member => Nat.lt_succ_of_lt (consumed.identities a member) }

theorem Consumed.of_same (consumed : Consumed time told issued as s) {t : Reader}
    (position : t.bus.position = s.bus.position) (orders : t.orders = s.orders) :
    Consumed time told issued as t where
  position := position ▸ consumed.position
  messages := position ▸ consumed.messages
  identities := consumed.identities
  history := consumed.history
  mirrors := orders ▸ consumed.mirrors

theorem Consumed.append (consumed : Consumed time told issued as s) (more : List VaultEvent) :
    Consumed time (told ++ more) issued as s :=
  { consumed with
    position := Nat.le_trans consumed.position (by simp)
    messages := by
      rw [List.take_append_of_le_length consumed.position]
      exact consumed.messages }

theorem history_of_follows {es : List VaultEvent} (follows : Follows all es)
    (keys : (all.map VaultEvent.key).Nodup)
    (rising : all.Pairwise fun a b => a.position.before b.position = true)
    (messages : as.map (·.message) = es.map fun e => Message.ofEvent e time)
    (identities : (as.map (·.fresh)).Nodup) (sound : ∀ a ∈ as, a.message.IsSound) :
    History as := by
  refine ⟨?_, identities, sound, ?_⟩
  · have same : as.map (·.message.key) = es.map VaultEvent.key := by
      have mapped := congrArg (List.map Message.key) messages
      rw [List.map_map, List.map_map] at mapped
      exact mapped
    rw [same]
    exact follows.nodup_keys keys
  · have chain : (es.map fun e => Message.ofEvent e time).Pairwise fun m n =>
        m.wallet = n.wallet → m.position.before n.position = true :=
      List.pairwise_map.mpr (follows.pairwise rising)
    rw [← messages] at chain
    exact List.pairwise_map.mp chain

/-- The last message of a wallet, read again, is passed over. -/
theorem Consumed.settle_again (consumed : Consumed time told issued as s) {e : VaultEvent}
    (last : (eventsOf e.wallet (heard (told.take s.bus.position))).getLast? = some e)
    (fresh : OrderId) :
    ∃ applied, Materialize.settle ⟨fresh, .ofEvent e time⟩ s.orders = (.ok applied, s.orders) := by
  obtain ⟨before, later, split, none_⟩ := split_of_last last
  have messages := consumed.messages
  rw [split, List.map_append, List.map_cons] at messages
  obtain ⟨first, rest, rfl, -, tail⟩ := List.map_eq_append_iff.mp messages
  obtain ⟨a, behind, rfl, same, behind'⟩ := List.map_eq_cons_iff.mp tail
  have quiet : Materialize.ofWallet a.message.wallet behind = [] := by
    rw [Materialize.ofWallet, List.filter_eq_nil_iff]
    intro c member
    have among : c.message ∈ later.map fun e => Message.ofEvent e time := by
      rw [← behind']
      exact List.mem_map_of_mem member
    obtain ⟨e', e'_mem, same'⟩ := List.mem_map.mp among
    rw [same, ← same', decide_eq_true_eq]
    intro wallet
    have mine : e' ∈ eventsOf e.wallet later := mem_eventsOf.mpr ⟨e'_mem, wallet⟩
    rw [none_] at mine
    exact absurd mine List.not_mem_nil
  refine Materialize.settle_replayed consumed.mirrors consumed.history same.symm ?_
  rintro ⟨⟨-, m, next, -⟩, -⟩
  rw [quiet] at next
  cases next

/-- What is read up to and including the next message. -/
theorem take_succ_of_next {i : Nat} {e : VaultEvent} (next : told[i]? = some e) :
    told.take (i + 1) = told.take i ++ [e] := by
  rw [List.take_add_one, next]
  rfl

/-- A message that is new and sound goes on with the history. -/
theorem Consumed.history_next (consumed : Consumed time told issued as s)
    (follows : Follows all (heard told)) (keys : (all.map VaultEvent.key).Nodup)
    (rising : all.Pairwise fun a b => a.position.before b.position = true) {e : VaultEvent}
    (next : told[s.bus.position]? = some e)
    (new : (eventsOf e.wallet (heard (told.take s.bus.position))).getLast? ≠ some e)
    (sound : (Message.ofEvent e time).IsSound) :
    (as ++ [Arrival.mk ⟨issued⟩ (.ofEvent e time)]).map (·.message) =
        (heard (told.take (s.bus.position + 1))).map (fun e => Message.ofEvent e time) ∧
      History (as ++ [Arrival.mk ⟨issued⟩ (.ofEvent e time)]) := by
  have grown : heard (told.take (s.bus.position + 1)) = heard (told.take s.bus.position) ++ [e] := by
    rw [take_succ_of_next next, heard_concat, hear, if_neg new]
  have follows' : Follows all (heard (told.take (s.bus.position + 1))) := by
    refine follows.mono ?_
    have part := heard_append (told.take (s.bus.position + 1)) (told.drop (s.bus.position + 1))
    rw [List.take_append_drop] at part
    exact part
  have messages : (as ++ [Arrival.mk ⟨issued⟩ (.ofEvent e time)]).map (·.message) =
      (heard (told.take (s.bus.position + 1))).map fun e => Message.ofEvent e time := by
    rw [grown, List.map_append, List.map_append, consumed.messages]
    rfl
  have identities : ((as ++ [Arrival.mk ⟨issued⟩ (.ofEvent e time)]).map (·.fresh)).Nodup := by
    rw [List.map_append, List.nodup_append]
    refine ⟨consumed.history.identities, by simp, ?_⟩
    intro id member id' new same
    obtain ⟨a, among, rfl⟩ := List.mem_map.mp member
    obtain rfl : id' = ⟨issued⟩ := by simpa using new
    have older := consumed.identities a among
    rw [same] at older
    exact Nat.lt_irrefl _ older
  have all_sound : ∀ a ∈ as ++ [Arrival.mk ⟨issued⟩ (.ofEvent e time)], a.message.IsSound := by
    intro a member
    rcases List.mem_append.mp member with old | new
    · exact consumed.history.sound a old
    · rw [List.mem_singleton.mp new]
      exact sound
  exact ⟨messages, history_of_follows follows' keys rising messages identities all_sound⟩

/-- A message that is applied counts, unless it is the last of its wallet again. -/
theorem Consumed.step (consumed : Consumed time told issued as s) (follows : Follows all (heard told))
    (keys : (all.map VaultEvent.key).Nodup)
    (rising : all.Pairwise fun a b => a.position.before b.position = true) {e : VaultEvent}
    (next : told[s.bus.position]? = some e) {applied : Materialize.Applied} {after : OrderTable}
    (settled : Materialize.settle ⟨⟨issued⟩, .ofEvent e time⟩ s.orders = (.ok applied, after))
    {bus : Bus} (read : bus.position = s.bus.position + 1) :
    ∃ as', Consumed time told (issued + 1) as' ⟨bus, after⟩ := by
  obtain ⟨inside, -⟩ := List.getElem?_eq_some_iff.mp next
  have position : bus.position ≤ told.length := by omega
  by_cases again : (eventsOf e.wallet (heard (told.take s.bus.position))).getLast? = some e
  · have same : heard (told.take bus.position) = heard (told.take s.bus.position) := by
      rw [read, take_succ_of_next next, heard_concat, hear, if_pos again]
    -- nothing new is heard, and the table has dealt with it before
    obtain ⟨applied', unchanged⟩ := consumed.settle_again again ⟨issued⟩
    rw [unchanged] at settled
    obtain rfl : s.orders = after := congrArg Prod.snd settled
    refine ⟨as, position, ?_, consumed.of_issued.identities, consumed.history, consumed.mirrors⟩
    rw [same]
    exact consumed.messages
  · obtain ⟨messages, history⟩ := consumed.history_next follows keys rising next again
      (Materialize.isSound_of_settle settled)
    obtain ⟨applied', after', settled', mirrors⟩ := consumed.mirrors.settle_eq history
    rw [settled'] at settled
    obtain rfl : after' = after := congrArg Prod.snd settled
    refine ⟨_, position, read ▸ messages, ?_, history, mirrors⟩
    intro a member
    rcases List.mem_append.mp member with old | new
    · exact consumed.of_issued.identities a old
    · rw [List.mem_singleton.mp new]
      exact Nat.lt_succ_self issued

/-- A sound message is accepted, be it new or not. -/
theorem Consumed.settles (consumed : Consumed time told issued as s)
    (follows : Follows all (heard told)) (keys : (all.map VaultEvent.key).Nodup)
    (rising : all.Pairwise fun a b => a.position.before b.position = true) {e : VaultEvent}
    (next : told[s.bus.position]? = some e) (sound : (Message.ofEvent e time).IsSound) :
    ∃ applied after,
      Materialize.settle ⟨⟨issued⟩, .ofEvent e time⟩ s.orders = (.ok applied, after) := by
  by_cases again : (eventsOf e.wallet (heard (told.take s.bus.position))).getLast? = some e
  · obtain ⟨applied, unchanged⟩ := consumed.settle_again again ⟨issued⟩
    exact ⟨applied, _, unchanged⟩
  · obtain ⟨-, history⟩ := consumed.history_next follows keys rising next again sound
    obtain ⟨applied, after, settled, -⟩ := consumed.mirrors.settle_eq history
    exact ⟨applied, after, settled⟩

/-- If all messages are sound, then those that are still unread are accepted one after another,
whenever they were published. -/
theorem Consumed.accepts (consumed : Consumed time told issued as s)
    (follows : Follows all (heard told)) (keys : (all.map VaultEvent.key).Nodup)
    (rising : all.Pairwise fun a b => a.position.before b.position = true)
    (sound : ∀ e ∈ told, (Message.ofEvent e time).IsSound) {bs : List Arrival}
    (fresh : bs.map (·.fresh) = (List.range' issued bs.length).map OrderId.mk)
    (unread : List.Forall₂ (fun e b => ∃ t, b.message = .ofEvent e t) (told.drop s.bus.position) bs) :
    ∀ r ∈ (Materialize.applyAll bs s.orders).1, ∃ applied, r = .ok applied := by
  induction bs generalizing issued as s with
  | nil => exact fun r none_ => absurd none_ List.not_mem_nil
  | cons b bs ih =>
      obtain ⟨e, rest, ⟨t, message⟩, later, split⟩ := List.forall₂_cons_right_iff.mp unread
      have next : told[s.bus.position]? = some e := by
        rw [← List.head?_drop, split]
        rfl
      obtain ⟨first, others⟩ := List.cons.inj fresh
      obtain ⟨applied, after, settled⟩ :=
        consumed.settles follows keys rising next (sound e (List.mem_of_getElem? next))
      obtain ⟨as', consumed'⟩ : ∃ as', Consumed time told (issued + 1) as'
          ⟨{ s.bus with position := s.bus.position + 1 }, after⟩ :=
        consumed.step follows keys rising next settled rfl
      have settled' : Materialize.settle b s.orders = (.ok applied, after) := by
        have same : b = ⟨⟨issued⟩, .ofEvent e t⟩ := congrArg₂ Arrival.mk first message
        rw [same, Materialize.settle_ofEvent _ _ t time]
        exact settled
      rw [Materialize.applyAll_cons, settled']
      intro r member
      rcases List.mem_cons.mp member with rfl | later'
      · exact ⟨applied, rfl⟩
      · refine ih consumed' others ?_ r later'
        rw [← List.tail_drop, split]
        exact later

theorem Consumed.id_lt (consumed : Consumed time told issued as s) :
    ∀ o ∈ s.orders.orders, o.id.value < issued := by
  intro o member
  obtain ⟨a, among, same, -⟩ :=
    Materialize.origin_of_mem_reconstruct (consumed.mirrors.mem_iff.mp member)
  rw [same]
  exact consumed.identities a (Materialize.mem_ofWallet.mp among).1

/-- What is read of deliveries that tell of events, with identities in the order of their numbers. -/
theorem exists_arrivals {log : List Delivery} {es : List VaultEvent}
    (tells : List.Forall₂ Delivery.Tells log es) (dated : ∀ e ∈ es, e.date.OnClock) (first : Nat) :
    ∃ bs : List Arrival, bs.map (·.fresh) = (List.range' first bs.length).map OrderId.mk ∧
      List.Forall₂ (fun d b => Message.ofBytes d.payload = .ok b.message) log bs ∧
      List.Forall₂ (fun e b => ∃ t, b.message = .ofEvent e t) es bs := by
  induction tells generalizing first with
  | nil => exact ⟨[], rfl, .nil, .nil⟩
  | @cons d e log es told _ ih =>
      obtain ⟨-, t, payload⟩ := told
      have decoded : Message.ofBytes d.payload = .ok (.ofEvent e t.shown) := by
        rw [payload, Message.ofBytes_toBytes, Message.shown_ofEvent (dated e List.mem_cons_self)]
      obtain ⟨bs, fresh, read, messages⟩ :=
        ih (fun e later => dated e (List.mem_cons_of_mem _ later)) (first + 1)
      refine ⟨⟨⟨first⟩, .ofEvent e t.shown⟩ :: bs, ?_, .cons decoded read, .cons ⟨_, rfl⟩ messages⟩
      exact congrArg (OrderId.mk first :: ·) fresh

theorem ends_handle (consumed : Consumed time told issued as s) (follows : Follows all (heard told))
    (keys : (all.map VaultEvent.key).Nodup)
    (rising : all.Pairwise fun a b => a.position.before b.position = true) {d : Delivery}
    {e : VaultEvent} (next : told[s.bus.position]? = some e) (dated : e.date.OnClock)
    (tells : d.Tells e) (offset : d.offset = s.bus.position) :
    Ends Reader.serves (handle ⟨issued⟩ d)
      { s with bus := { s.bus with position := s.bus.position + 1 } } fun _ t =>
        t.bus.log = s.bus.log ∧ ∃ as', Consumed time told (issued + 1) as' t := by
  obtain ⟨-, t, payload⟩ := tells
  have process : Materialize.process ⟨issued⟩ d.payload =
      Materialize.apply ⟨issued⟩ (.ofEvent e t.shown) := by
    rw [Materialize.process, payload, Message.ofBytes_toBytes, Message.shown_ofEvent dated]
  unfold handle
  rw [process]
  refine Ends.bind ?_
  intro r u run
  obtain ⟨applied, bus⟩ := runs_onOrders run
  have outcome := Materialize.runs_apply (a := ⟨⟨issued⟩, .ofEvent e t.shown⟩) applied
  cases r with
  | ok answer =>
      have settled : Materialize.settle ⟨⟨issued⟩, .ofEvent e time⟩ s.orders =
          (.ok answer, u.orders) := by
        rw [Materialize.settle_ofEvent _ _ time t.shown]
        rcases outcome with settled | ⟨c, fault, -, broken, -⟩
        · exact settled.symm
        · cases broken
      refine Ends.bind (Ends.perform ?_)
      rintro reply v (⟨rfl, rfl⟩ | ⟨-, ⟨fault, rfl⟩, rfl⟩)
      · refine Ends.pure ⟨by rw [bus]; rfl, ?_⟩
        refine consumed.step follows keys rising next settled ?_
        rw [bus]
        rfl
      · refine Ends.pure ⟨by rw [bus], ?_⟩
        exact consumed.step follows keys rising next settled (bus ▸ rfl)
  | error fault =>
      have unchanged : u.orders = s.orders := by
        rcases outcome with settled | ⟨c, fault, -, -, same⟩
        · exact Materialize.snd_settle_of_error settled.symm
        · exact same
      refine Ends.bind (Ends.perform ?_)
      rintro reply v (⟨rfl, rfl⟩ | ⟨never, -, -⟩)
      · refine Ends.pure ⟨by rw [bus]; rfl, as, ?_⟩
        exact consumed.of_issued.of_same offset unchanged
      · exact absurd rfl (never d)

/-- However a turn goes, what is read of the bus is what the orders tell of. -/
theorem ends_turn (consumed : Consumed time told issued as s) (follows : Follows all (heard told))
    (keys : (all.map VaultEvent.key).Nodup)
    (rising : all.Pairwise fun a b => a.position.before b.position = true)
    (dated : ∀ e ∈ all, e.date.OnClock) (log : List.Forall₂ Delivery.Tells s.bus.log told)
    (numbered : s.bus.Numbered) :
    Ends Reader.serves (turn ⟨issued⟩) s fun _ t => t.bus.log = s.bus.log ∧
      ∃ as', Consumed time told (issued + 1) as' t := by
  unfold turn
  refine Ends.bind (Ends.perform ?_)
  rintro reply t (⟨rfl, rfl⟩ | ⟨-, ⟨fault, rfl⟩, rfl⟩)
  · cases found : s.bus.log[s.bus.position]? with
    | none =>
        simp only [Bus.answer, found]
        exact Ends.pure ⟨rfl, as, consumed.of_issued⟩
    | some d =>
        simp only [Bus.answer, found]
        obtain ⟨inside, here⟩ := List.getElem?_eq_some_iff.mp found
        have inside' : s.bus.position < told.length := log.length_eq ▸ inside
        have tells : d.Tells told[s.bus.position] := by
          have each := (List.forall₂_iff_get.mp log).2 s.bus.position inside inside'
          rw [List.get_eq_getElem, List.get_eq_getElem, here] at each
          exact each
        have among := follows.mem (mem_heard (List.getElem_mem inside'))
        exact ends_handle consumed follows keys rising (List.getElem?_eq_getElem inside')
          (dated _ among) tells (numbered.offset_eq found)
  · cases fault <;> exact Ends.pure ⟨rfl, as, consumed.of_issued⟩

end

end Consume

end VaultTransfers
