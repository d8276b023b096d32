import VaultTransfers.Proofs.Publish.Discipline
import VaultTransfers.Proofs.Transfer.Stream

/-!
Whole batches, one after the other. Without any other publisher a row is sent
only when the earlier rows of its wallet are marked as sent, so that the wallet's
messages on the bus are its events in their order, each repeated perhaps before
the next one comes.
-/

namespace VaultTransfers.Publish

open Program (Ends)

/-- What the bus tells are the rows' events: the sent ones, and of each wallet perhaps one more. -/
structure Desk.Streams (known : List OutboxEvent) (told : List VaultEvent) (w : Desk) : Prop where
  entries : w.box.entries = known
  ordered : w.box.Ordered
  log : List.Forall₂ Delivery.Tells w.bus.log told
  numbered : w.bus.Numbered
  inOrder : Follows w.box.events (heard told)
  sent : ∀ r ∈ w.box.rows, r.status = .sent → r.event ∈ heard told
  last : ∀ r ∈ w.box.rows, r.status ≠ .sent → r.event ∈ heard told →
    (eventsOf r.event.wallet (heard told)).getLast? = some r.event

/-- All earlier rows of the wallet are sent, and the row itself is not. -/
def Desk.IsTurn (w : Desk) (r : Outbox.Row) : Prop :=
  r ∈ w.box.rows ∧ r.status ≠ .sent ∧ ∀ a ∈ w.box.rows, a.event.wallet = r.event.wallet →
    a.foundBefore r.toOutboxEvent = true → a.status = .sent

/-- What a batch may rely on about the rows that it has still to deal with: they are held, and those
of the wallets that have not failed have no waiting rows before them but in the batch. -/
structure Queued (halted : List String) (rows : List OutboxEvent) (w : Desk) : Prop where
  keys : (rows.map (·.event.key)).Nodup
  held : ∀ b ∈ rows, ∃ r ∈ w.box.rows, r.entry = b.entry ∧ r.status = .processing
  earlier : ∀ before b after, rows = before ++ b :: after → b.event.wallet ∉ halted →
    ∀ a ∈ w.box.rows, a.event.wallet = b.event.wallet → a.foundBefore b = true →
      a.status = .sent ∨ ∃ c ∈ before, c.entry = a.entry

/-- Of a list that goes on with `e`, a first part that has all before `e` but not `e` itself. -/
theorem eq_of_prefix_of_nodup {α : Type} {part earlier later : List α} {e : α}
    (grown : part <+: earlier ++ e :: later) (distinct : earlier.Nodup) (absent : e ∉ part)
    (all : ∀ a ∈ earlier, a ∈ part) : part = earlier := by
  have next : earlier ++ [e] <+: earlier ++ e :: later := by simp
  have shorter : part.length ≤ earlier.length := by
    by_contra longer
    have further : earlier ++ [e] <+: part :=
      List.prefix_of_prefix_length_le next grown (by simp; omega)
    exact absent (further.subset (by simp))
  obtain ⟨rest, rfl⟩ : part <+: earlier :=
    List.prefix_of_prefix_length_le grown (List.prefix_append _ _) shorter
  cases rest with
  | nil => rw [List.append_nil]
  | cons a rest =>
      have twice := (List.nodup_append.mp distinct).2.2 a (all a (by simp)) a List.mem_cons_self
      exact absurd rfl twice

theorem Desk.streams_empty : Desk.empty.Streams [] [] where
  entries := rfl
  ordered := ⟨.nil, .nil⟩
  log := .nil
  numbered := rfl
  inOrder := fun _ => List.nil_prefix
  sent := fun _ none_ => absurd none_ List.not_mem_nil
  last := fun _ none_ => absurd none_ List.not_mem_nil

namespace Desk.Streams

variable {known : List OutboxEvent} {told : List VaultEvent} {w v : Desk} {r : Outbox.Row}

theorem nodup_events (streams : w.Streams known told) : w.box.events.Nodup :=
  streams.ordered.nodup_keys.of_map _

theorem eq_of_event (streams : w.Streams known told) {a : Outbox.Row} (a_mem : a ∈ w.box.rows)
    (r_mem : r ∈ w.box.rows) (same : a.event = r.event) : a = r :=
  streams.ordered.eq_of_key a_mem r_mem (congrArg VaultEvent.key same)

theorem of_rows (streams : w.Streams known told) (entries : v.box.entries = w.box.entries)
    (bus : v.bus = w.bus)
    (origin : ∀ a ∈ v.box.rows, ∃ r ∈ w.box.rows, r.event = a.event ∧
      (a.status ≠ .sent → r.status ≠ .sent) ∧
      (a.status = .sent → r.status = .sent ∨ a.event ∈ heard told)) : v.Streams known told where
  entries := entries.trans streams.entries
  ordered := streams.ordered.of_entries entries
  log := bus ▸ streams.log
  numbered := bus ▸ streams.numbered
  inOrder := by
    rw [Outbox.events_of_entries entries]
    exact streams.inOrder
  sent := by
    intro a member sent
    obtain ⟨r, among, event, -, was⟩ := origin a member
    rcases was sent with already | told
    · exact event ▸ streams.sent r among already
    · exact told
  last := by
    intro a member unsent told
    obtain ⟨r, among, event, was, -⟩ := origin a member
    rw [← event] at told ⊢
    exact streams.last r among (was unsent) told

/-- New rows that wait change nothing of what is said of the bus. -/
theorem of_extends (streams : w.Streams known told) {box : Outbox} (grown : w.box.Extends box)
    (ordered : box.Ordered) : Desk.Streams box.entries told ⟨box, w.bus⟩ := by
  obtain ⟨new, rows, unsent⟩ := grown
  have old (a : Outbox.Row) (member : a ∈ w.box.rows) : a ∈ box.rows :=
    rows ▸ List.mem_append_left new member
  refine ⟨rfl, ordered, streams.log, streams.numbered,
    streams.inOrder.extend (Outbox.Extends.events ⟨new, rows, unsent⟩), ?_, ?_⟩
  · intro a member sent
    rcases List.mem_append.mp (rows ▸ member) with known | added
    · exact streams.sent a known sent
    · rw [unsent a added] at sent
      cases sent
  · intro a member waiting told
    obtain ⟨r, r_mem, same⟩ := List.mem_map.mp (streams.inOrder.mem told)
    obtain rfl := ordered.eq_of_key (old r r_mem) member (congrArg VaultEvent.key same)
    exact streams.last r r_mem waiting told

theorem of_log (streams : w.Streams known told) {bus : Bus} (log : bus.log = w.bus.log) :
    Desk.Streams known told ⟨w.box, bus⟩ :=
  { streams with
    log := log ▸ streams.log
    numbered := by
      rw [Bus.Numbered, log]
      exact streams.numbered }

theorem answered (streams : w.Streams known told) {c : Outbox.Call} (other : ∀ e, c ≠ .record e)
    (now : Moment) (marks : ∀ r ∈ w.box.rows, c = .markSent r.event.ref → r.event ∈ heard told) :
    Desk.Streams known told ⟨(Outbox.answer now c w.box).2, w.bus⟩ := by
  have entries := Outbox.entries_answer other now w.box
  have ordered := streams.ordered.of_entries entries
  refine streams.of_rows entries rfl ?_
  intro a member
  obtain ⟨r, among, same⟩ := Outbox.origin_of_mem_answer other member
  have event : r.event = a.event := congrArg (·.event) same
  refine ⟨r, among, event, ?_, ?_⟩
  · intro unsent sent
    have kept := streams.ordered.mem_answer_of_sent now other among sent
    obtain rfl := ordered.eq_of_key kept member (congrArg VaultEvent.key event)
    exact unsent sent
  · intro sent
    rcases Outbox.sent_of_mem_answer other member sent with old | marked
    · obtain rfl := streams.eq_of_event among old event
      exact .inl sent
    · rw [← event] at marked ⊢
      exact .inr (marks r among marked)

/-- When it is the turn of a row that is not on the bus, the wallet's earlier rows are all that has
been heard of it, and they are sent. -/
theorem heard_of_turn (streams : w.Streams known told) (turn : w.IsTurn r)
    (new : r.event ∉ heard told) :
    eventsOf r.event.wallet (heard told) ++ [r.event] <+: eventsOf r.event.wallet w.box.events ∧
      ∀ a ∈ w.box.rows, a.event.wallet = r.event.wallet → a.event ∈ heard told →
        a.status = .sent := by
  obtain ⟨r_mem, -, earlier⟩ := turn
  obtain ⟨pre, post, rows⟩ := List.append_of_mem r_mem
  have events : w.box.events = pre.map (·.event) ++ r.event :: post.map (·.event) := by
    rw [Outbox.events, rows, List.map_append, List.map_cons]
  have found := streams.ordered.pairwise
  rw [rows] at found
  have sent (a : Outbox.Row) (member : a ∈ pre) (wallet : a.event.wallet = r.event.wallet) :
      a.status = .sent :=
    earlier a (by simp [rows, member]) wallet
      ((List.pairwise_append.mp found).2.2 a member r List.mem_cons_self)
  have distinct := streams.nodup_events
  have whole : eventsOf r.event.wallet w.box.events = eventsOf r.event.wallet
      (pre.map (·.event)) ++ r.event :: eventsOf r.event.wallet (post.map (·.event)) := by
    rw [events, eventsOf_append, eventsOf, eventsOf, List.filter_cons_of_pos (by simp)]
    rfl
  have before : eventsOf r.event.wallet (heard told) =
      eventsOf r.event.wallet (pre.map (·.event)) := by
    refine eq_of_prefix_of_nodup (whole ▸ streams.inOrder r.event.wallet) ?_ ?_ ?_
    · rw [events] at distinct
      exact (List.nodup_append.mp distinct).1.sublist List.filter_sublist
    · exact fun member => new (mem_eventsOf.mp member).1
    · intro e member
      obtain ⟨among, wallet⟩ := mem_eventsOf.mp member
      obtain ⟨a, a_mem, rfl⟩ := List.mem_map.mp among
      exact mem_eventsOf.mpr
        ⟨streams.sent a (by simp [rows, a_mem]) (sent a a_mem wallet), wallet⟩
  constructor
  · rw [before, whole]
    simp
  · intro a member wallet told
    have among := mem_eventsOf.mpr ⟨told, wallet⟩
    rw [before] at among
    obtain ⟨b, b_mem, event⟩ := List.mem_map.mp (mem_eventsOf.mp among).1
    obtain rfl := streams.eq_of_event (by simp [rows, b_mem]) member event
    exact sent b b_mem wallet

theorem push (streams : w.Streams known told) (turn : w.IsTurn r) (t : Instant) :
    (w.push r.event.wallet (Message.ofEvent r.event t).toBytes).Streams known (told ++ [r.event]) := by
  have tells : Delivery.Tells ⟨w.bus.log.length, r.event.wallet, (Message.ofEvent r.event t).toBytes⟩
      r.event := ⟨rfl, t, rfl⟩
  have log : List.Forall₂ Delivery.Tells
      (w.bus.log ++ [⟨w.bus.log.length, r.event.wallet, (Message.ofEvent r.event t).toBytes⟩])
      (told ++ [r.event]) :=
    List.rel_append streams.log (.cons tells .nil)
  have numbered := streams.numbered.push r.event.wallet (Message.ofEvent r.event t).toBytes
  by_cases again : (eventsOf r.event.wallet (heard told)).getLast? = some r.event
  · have same : heard (told ++ [r.event]) = heard told := by
      rw [heard_concat, hear, if_pos again]
    exact ⟨streams.entries, streams.ordered, log, numbered, same ▸ streams.inOrder, same ▸ streams.sent,
      same ▸ streams.last⟩
  · have grown : heard (told ++ [r.event]) = heard told ++ [r.event] := by
      rw [heard_concat, hear, if_neg again]
    -- an unsent row that is on the bus would be the last of its wallet there
    have new : r.event ∉ heard told := fun member =>
      again (streams.last r turn.1 turn.2.1 member)
    obtain ⟨next, sent⟩ := streams.heard_of_turn turn new
    refine ⟨streams.entries, streams.ordered, log, numbered, ?_, ?_, ?_⟩
    · intro wallet
      rw [grown]
      by_cases same : r.event.wallet = wallet
      · subst same
        rw [eventsOf_concat]
        exact next
      · rw [eventsOf_concat_of_ne same]
        exact streams.inOrder wallet
    · intro a member isSent
      rw [grown]
      exact List.mem_append_left _ (streams.sent a member isSent)
    · intro a member unsent told'
      rw [grown] at told' ⊢
      rcases List.mem_append.mp told' with old | itself
      · have other : r.event.wallet ≠ a.event.wallet := fun wallet =>
          unsent (sent a member wallet.symm old)
        rw [eventsOf_concat_of_ne other]
        exact streams.last a member unsent old
      · rw [List.mem_singleton.mp itself, eventsOf_concat, List.getLast?_concat]

end Desk.Streams

namespace Queued

variable {known : List OutboxEvent} {told : List VaultEvent} {halted : List String} {row : OutboxEvent}
  {rows : List OutboxEvent} {w : Desk}

theorem isTurn (queued : Queued halted (row :: rows) w) (going : row.event.wallet ∉ halted) :
    ∃ r, r.event = row.event ∧ w.IsTurn r := by
  obtain ⟨r, r_mem, entry, held⟩ := queued.held row List.mem_cons_self
  have event : r.event = row.event := congrArg (·.event) entry
  refine ⟨r, event, r_mem, by simp [held], ?_⟩
  intro a member wallet found
  have found' : a.foundBefore row = true := by
    have order : r.entry = row.entry := entry
    rw [← OutboxEvent.foundBefore_entry, ← order]
    exact found
  rcases queued.earlier [] row rows rfl going a member (event ▸ wallet) found' with sent | ⟨c, none, -⟩
  · exact sent
  · simp at none

theorem letGo (queued : Queued halted (row :: rows) w) (ordered : w.box.Ordered)
    {status : OutboxStatus} {more : List String} (kept : ∀ x ∈ halted, x ∈ more)
    (dealtWith : status = .sent ∨ row.event.wallet ∈ more) :
    Queued more rows ⟨w.box.release row.event.ref status, w.bus⟩ := by
  obtain ⟨r, r_mem, entry, held⟩ := queued.held row List.mem_cons_self
  have event : r.event = row.event := congrArg (·.event) entry
  obtain ⟨fresh, keys⟩ := List.nodup_cons.mp queued.keys
  refine ⟨keys, ?_, ?_⟩
  · intro b member
    obtain ⟨s, s_mem, entry', held'⟩ := queued.held b (List.mem_cons_of_mem row member)
    have event' : s.event = b.event := congrArg (·.event) entry'
    refine ⟨s, Outbox.mem_release_of_ne ?_ s_mem, entry', held'⟩
    intro same
    rw [event'] at same
    exact fresh (List.mem_map.mpr ⟨b, member, same⟩)
  · intro before b after split going a member wallet found
    by_cases same : a.event.key = row.event.key
    · rw [← event] at same member
      have gone := ordered.eq_letGo_of_mem_release r_mem held member same
      rcases dealtWith with rfl | stopped
      · exact .inl (by rw [gone]; rfl)
      · refine absurd ?_ going
        rw [← wallet, gone]
        exact event ▸ stopped
    · have a_mem := Outbox.mem_of_mem_release same member
      rcases queued.earlier (row :: before) b after (by rw [split]; rfl)
        (fun failed => going (kept _ failed)) a a_mem wallet found with sent | ⟨c, among, same'⟩
      · exact .inl sent
      · rcases List.mem_cons.mp among with rfl | later
        · exact absurd (congrArg (·.event.key) same').symm same
        · exact .inr ⟨c, later, same'⟩

theorem of_claim (ordered : w.box.Ordered) (limit : Int) (now : Moment) :
    Queued [] (w.box.claim limit now).1 ⟨(w.box.claim limit now).2, w.bus⟩ := by
  have keys := Outbox.nodup_keys_claimed ordered.nodup_keys limit
  refine ⟨?_, ?_, ?_⟩
  · rw [Outbox.claim, List.map_map]
    exact keys
  · exact fun b member => Outbox.held_of_mem_claim member
  · intro before b after split _ a member wallet found
    obtain ⟨r, r_mem, same⟩ := Outbox.origin_of_mem_answer (c := .claim limit) (by simp) member
    have event : r.event = a.event := congrArg (·.event) same
    have found' : r.foundBefore b = true := by
      have order : r.toOutboxEvent.entry = a.toOutboxEvent.entry := same
      rw [← OutboxEvent.foundBefore_entry, order]
      exact found
    obtain ⟨-, ahead⟩ := ordered.sent_or_claimed_before split
    rcases ahead r r_mem (event ▸ wallet) found' with sent | ⟨c, among, entry⟩
    · have kept := ordered.mem_answer_of_sent now (c := .claim limit) (by simp) r_mem sent
      have ordered' := ordered.of_entries (Outbox.entries_claim limit now w.box)
      obtain rfl := ordered'.eq_of_key kept member (congrArg VaultEvent.key event)
      exact .inl sent
    · exact .inr ⟨c, among, entry.trans same⟩

end Queued

section

variable {known : List OutboxEvent} {told : List VaultEvent} {row : OutboxEvent}
  {rows : List OutboxEvent} {p : Progress} {w : Desk}

theorem ends_askOutbox {c : Outbox.Call} {post : Except StoreFault (Outbox.Value c) → Desk → Prop}
    (answered : ∀ now, post (Outbox.answer now c w.box).1 ⟨(Outbox.answer now c w.box).2, w.bus⟩)
    (failed : ∀ fault, post (.error fault) w) : Ends Desk.serves (askOutbox c).run w post := by
  refine Ends.perform ?_
  rintro reply t (⟨now, rfl, rfl⟩ | ⟨fault, rfl, rfl⟩)
  · exact answered now
  · exact failed fault

/-- A row whose turn it is is sent, or is not, or the bus has it and nobody knows. -/
theorem ends_deliver {e : VaultEvent} {r : Outbox.Row} (streams : w.Streams known told)
    (turn : w.IsTurn r) (event : r.event = e) :
    Ends Desk.serves (deliver e).run w fun reply t => ∃ more, t.Streams known (told ++ more) ∧
      t.box = w.box ∧ (reply = .ok true → e ∈ heard (told ++ more)) := by
  subst event
  refine Ends.bind (Ends.bind (Ends.perform ?_))
  intro t u same
  obtain rfl : u = w := same
  apply Ends.pure
  have pushed := streams.push turn t
  have new : r.event ∈ heard (told ++ [r.event]) := by
    rw [heard_concat]
    exact mem_hear _ _
  refine Ends.bind (Ends.bind (Ends.perform ?_))
  rintro reply v (⟨rfl, rfl⟩ | ⟨fault, rfl, rfl | rfl⟩)
  · exact Ends.pure (Ends.pure ⟨[r.event], pushed, rfl, fun _ => new⟩)
  · refine Ends.pure (Ends.pure ⟨[], ?_, rfl, ?_⟩)
    · rw [List.append_nil]
      exact streams
    · intro taken
      cases taken
  · exact Ends.pure (Ends.pure ⟨[r.event], pushed, rfl, fun _ => new⟩)

theorem ends_markSent {halted : List String} (streams : w.Streams known told)
    (queued : Queued halted (row :: rows) w) (onBus : row.event ∈ heard told) :
    Ends Desk.serves (askOutbox (.markSent row.event.ref)).run w fun r t =>
      t.Streams known told ∧ ∀ a, r = .ok a → Queued halted rows t := by
  refine ends_askOutbox ?_ ?_
  · intro now
    refine ⟨streams.answered (c := .markSent row.event.ref) (by simp) now ?_, ?_⟩
    · intro a member same
      obtain ⟨r, r_mem, entry, -⟩ := queued.held row List.mem_cons_self
      have event : r.event = row.event := congrArg (·.event) entry
      have key : row.event.key = a.event.key := congrArg RowRef.key (Outbox.Call.markSent.inj same)
      rw [← streams.ordered.eq_of_key r_mem member ((congrArg VaultEvent.key event).trans key), event]
      exact onBus
    · intro a _
      exact queued.letGo streams.ordered (fun _ member => member) (.inl rfl)
  · intro fault
    refine ⟨streams, ?_⟩
    intro a same
    cases same

theorem ends_markFailed {halted more : List String} (streams : w.Streams known told)
    (queued : Queued halted (row :: rows) w) (kept : ∀ x ∈ halted, x ∈ more)
    (stopped : row.event.wallet ∈ more) :
    Ends Desk.serves (askOutbox (.markFailed row.event.ref)).run w fun r t =>
      t.Streams known told ∧ ∀ a, r = .ok a → Queued more rows t := by
  refine ends_askOutbox ?_ ?_
  · intro now
    refine ⟨streams.answered (c := .markFailed row.event.ref) (by simp) now (by simp), ?_⟩
    intro a _
    exact queued.letGo streams.ordered kept (.inr stopped)
  · intro fault
    refine ⟨streams, ?_⟩
    intro a same
    cases same

theorem ends_handle (streams : w.Streams known told) (queued : Queued p.halted (row :: rows) w) :
    Ends Desk.serves (handle row p).run w fun r t => ∃ more, t.Streams known (told ++ more) ∧
      ∀ p', r = .ok p' → Queued p'.halted rows t := by
  unfold handle
  by_cases halted : p.halted.contains row.event.wallet
  · simp only [halted, if_true]
    refine Ends.except_bind ((ends_markFailed streams queued (fun _ member => member)
      (List.contains_iff_mem.mp halted)).mono ?_)
    rintro r t ⟨streams', queued'⟩
    rw [← List.append_nil told] at streams'
    cases r with
    | error fault => exact ⟨[], streams', by simp⟩
    | ok a =>
        refine Ends.pure ⟨[], streams', ?_⟩
        rintro p' same
        cases same
        exact queued' a rfl
  · simp only [halted]
    obtain ⟨r, event, turn⟩ := queued.isTurn fun member => halted (List.contains_iff_mem.mpr member)
    refine Ends.except_bind ((ends_deliver streams turn event).mono ?_)
    rintro reply t ⟨more, streams', box, told'⟩
    have queued' : Queued p.halted (row :: rows) t :=
      ⟨queued.keys, box ▸ queued.held, box ▸ queued.earlier⟩
    cases reply with
    | error fault => exact ⟨more, streams', by simp⟩
    | ok taken =>
        cases taken with
        | true =>
            refine Ends.except_bind ((ends_markSent streams' queued' (told' rfl)).mono ?_)
            rintro r u ⟨streams'', queued''⟩
            cases r with
            | error fault => exact ⟨more, streams'', by simp⟩
            | ok a =>
                refine Ends.pure ⟨more, streams'', ?_⟩
                rintro p' same
                cases same
                exact queued'' a rfl
        | false =>
            refine Ends.except_bind ((ends_markFailed streams' queued'
              (fun _ => List.mem_cons_of_mem row.event.wallet) List.mem_cons_self).mono ?_)
            rintro r u ⟨streams'', queued''⟩
            cases r with
            | error fault => exact ⟨more, streams'', by simp⟩
            | ok a =>
                refine Ends.pure ⟨more, streams'', ?_⟩
                rintro p' same
                cases same
                exact queued'' a rfl

theorem ends_release (rows : List OutboxEvent) (streams : w.Streams known told) :
    Ends Desk.serves (release rows) w fun _ t => t.Streams known told := by
  induction rows generalizing w with
  | nil => exact Ends.pure streams
  | cons row rows ih =>
      unfold release
      refine Ends.bind (ends_askOutbox (c := .markFailed row.event.ref) ?_ ?_)
      · intro now
        exact ih (streams.answered (by simp) now (by simp))
      · intro _
        exact ih streams

theorem ends_handleAll (streams : w.Streams known told) (queued : Queued p.halted rows w) :
    Ends Desk.serves (handleAll rows p).run w fun _ t => ∃ more, t.Streams known (told ++ more) := by
  induction rows generalizing p told w with
  | nil =>
      rw [← List.append_nil told] at streams
      exact Ends.pure ⟨[], streams⟩
  | cons row rows ih =>
      unfold handleAll
      refine Ends.except_bind (Ends.bind ((ends_handle streams queued).mono ?_))
      rintro r t ⟨more, streams', queued'⟩
      apply Ends.pure
      cases r with
      | ok p =>
          refine (ih streams' (queued' p rfl)).mono ?_
          rintro _ u ⟨more', streams''⟩
          exact ⟨more ++ more', List.append_assoc told more more' ▸ streams''⟩
      | error fault =>
          refine Ends.except_bind (Ends.bind ((ends_release (row :: rows) streams').mono ?_))
          intro _ u streams''
          exact Ends.pure (Ends.pure ⟨more, streams''⟩)

/-- However a batch goes, each wallet's events stay in their order on the bus, and none that has
come is followed by an earlier one. -/
theorem ends_batch (plan : Plan) (streams : w.Streams known told) :
    Ends Desk.serves (batch plan).run w fun _ t => ∃ more, t.Streams known (told ++ more) := by
  have nothing : ∀ {v : Desk}, v.Streams known told → ∃ more, v.Streams known (told ++ more) := by
    intro v streams
    rw [← List.append_nil told] at streams
    exact ⟨[], streams⟩
  unfold batch
  refine Ends.except_bind (ends_askOutbox ?_ fun _ => nothing streams)
  intro now
  have swept := streams.answered (c := .reclaim plan.reclaimAfter) (by simp) now (by simp)
  refine Ends.except_bind (ends_askOutbox ?_ fun _ => nothing swept)
  intro now'
  have claimed := swept.answered (c := .claim plan.batchSize) (by simp) now' (by simp)
  refine Ends.except_bind ((ends_handleAll claimed (.of_claim swept.ordered plan.batchSize now')).mono ?_)
  intro r t done
  cases r with
  | ok p => exact Ends.pure done
  | error fault => exact done

end

end VaultTransfers.Publish
