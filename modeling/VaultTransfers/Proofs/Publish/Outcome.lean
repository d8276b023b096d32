import Mathlib.Data.Finset.Card
import VaultTransfers.Proofs.Program.Runs
import VaultTransfers.Proofs.Publish.Order
import VaultTransfers.Proofs.Store.Passage
import VaultTransfers.Proofs.Transfer.Stream

/-!
What a whole batch comes to when its marks do not fail and nobody else is at
work. The bus takes the messages of all wallets but some, whatever the batch is
made up of; every claimed row ends as sent or is put back, as its wallet has it,
and the other rows stay where the sweep has left them.
-/

namespace VaultTransfers

namespace Outbox

/-- The row when a batch has dealt with the rows of the events `done`: its own, if among them, is
sent, or is put back if the wallet fails. -/
def Row.dealtWith (fails : String → Bool) (done : List VaultEvent) (r : Row) : Row :=
  if r.event ∈ done then r.letGo (if fails r.event.wallet then .unsent else .sent) else r

section

variable {fails : String → Bool} {done : List VaultEvent} {r : Row} {start box : Outbox}

theorem Row.event_dealtWith : (r.dealtWith fails done).event = r.event := by
  unfold Row.dealtWith
  split
  · rfl
  · rfl

theorem Row.dealtWith_nil : r.dealtWith fails [] = r :=
  if_neg List.not_mem_nil

/-- Of a row that is let go, it is not seen any more since when it was held. -/
theorem Row.dealtWith_hold {taken : List VaultEvent} (now : Moment) :
    (if r.event ∈ taken then r.hold now else r).dealtWith fails taken =
      r.dealtWith fails taken := by
  unfold Row.dealtWith
  by_cases among : r.event ∈ taken
  · simp [among, Row.hold, Row.letGo]
  · simp [among]

theorem events_dealtWith (rows : box.rows = start.rows.map (Row.dealtWith fails done)) :
    box.events = start.events := by
  rw [Outbox.events, rows, List.map_map]
  exact List.map_congr_left fun a _ => Row.event_dealtWith

/-- A row that has not been dealt with is as it was. -/
theorem mem_rows_dealtWith (rows : box.rows = start.rows.map (Row.dealtWith fails done))
    (member : r ∈ start.rows) (new : r.event ∉ done) : r ∈ box.rows := by
  rw [rows]
  exact List.mem_map.mpr ⟨r, member, if_neg new⟩

/-- A held row that is let go as its wallet has it joins those that have been dealt with. -/
theorem rows_release_dealtWith (keys : (start.events.map VaultEvent.key).Nodup)
    (rows : box.rows = start.rows.map (Row.dealtWith fails done)) {e : VaultEvent}
    (held : ∃ r ∈ start.rows, r.event = e ∧ r.status = .processing) (new : e ∉ done) :
    (box.release e.ref (if fails e.wallet then .unsent else .sent)).rows =
      start.rows.map (Row.dealtWith fails (done ++ [e])) := by
  obtain ⟨r, member, rfl, held⟩ := held
  have here : r ∈ box.rows := mem_rows_dealtWith rows member new
  rw [rows_release (events_dealtWith rows ▸ keys) here held, rows, List.map_map]
  refine List.map_congr_left fun a _ => ?_
  rw [Function.comp_apply, Row.event_dealtWith]
  by_cases same : a.event = r.event
  · simp [Row.dealtWith, same, new]
  · simp [Row.dealtWith, same]

end

end Outbox

namespace Publish

open Program (Ends)

namespace Desk

/-- None of the calls is a mark. -/
def SparesMarks (refuses : Outbox.Call → Prop) : Prop :=
  ∀ ref, ¬refuses (.markSent ref) ∧ ¬refuses (.markFailed ref)

/-- The answers of a desk where of the outbox only the calls in `refuses` may fail, without effect,
and where the bus refuses the messages of the wallets that `fails` tells, and takes all others. -/
def serving (fails : String → Bool) (refuses : Outbox.Call → Prop) :
    Service Publish.interface Desk := fun c w reply after =>
  match c with
  | .outbox c =>
    (∃ now, reply = (Outbox.answer now c w.box).1 ∧ after = ⟨(Outbox.answer now c w.box).2, w.bus⟩) ∨
      refuses c ∧ ∃ fault, reply = .error fault ∧ after = w
  | .now => after = w
  | .send key payload =>
    if fails key then (∃ fault, reply = .error fault) ∧ after = w
    else reply = .ok () ∧ after = w.push key payload

section

variable {fails : String → Bool} {refuses : Outbox.Call → Prop} {w : Desk}

theorem ends_mark {c : Outbox.Call} {value : Outbox.Value c} {box : Outbox} {α : Type} {a : α}
    {post : Except StoreFault α → Desk → Prop} (sure : ¬refuses c)
    (marks : ∀ now, Outbox.answer now c w.box = (.ok value, box))
    (holds : post (.ok a) ⟨box, w.bus⟩) :
    Ends (serving fails refuses) (askOutbox c >>= fun _ => pure a).run w post := by
  refine Ends.except_bind (Ends.perform ?_)
  rintro reply v (⟨now, rfl, rfl⟩ | ⟨refused, -⟩)
  · rw [marks now]
    exact Ends.pure holds
  · exact absurd refused sure

theorem serving_send_of_fails {key : String} {payload : List UInt8} {reply : Except BusFault Unit}
    {v : Desk} (refused : fails key = true) :
    serving fails refuses (.send key payload) w reply v ↔
      (∃ fault, reply = .error fault) ∧ v = w :=
  iff_of_eq (if_pos refused)

theorem serving_send_of_takes {key : String} {payload : List UInt8} {reply : Except BusFault Unit}
    {v : Desk} (taken : fails key = false) :
    serving fails refuses (.send key payload) w reply v ↔
      reply = .ok () ∧ v = w.push key payload :=
  iff_of_eq (if_neg (by simp [taken]))

theorem ends_deliver (e : VaultEvent) (w : Desk) :
    Ends (serving fails refuses) (deliver e).run w fun reply v =>
      reply = .ok true ∧ fails e.wallet = false ∧
          (∃ t, v = w.push e.wallet (Message.ofEvent e t).toBytes) ∨
        reply = .ok false ∧ fails e.wallet = true ∧ v = w := by
  rintro reply v ⟨t, u, rfl, ack, v', served, rfl, rfl⟩
  cases refused : fails e.wallet with
  | true =>
      obtain ⟨⟨fault, rfl⟩, rfl⟩ := (serving_send_of_fails refused).mp served
      exact .inr ⟨rfl, rfl, rfl⟩
  | false =>
      obtain ⟨rfl, rfl⟩ := (serving_send_of_takes refused).mp served
      exact .inl ⟨rfl, rfl, t, rfl⟩

end

end Desk

/-- The wallets of the events that fail. -/
def failing (fails : String → Bool) (events : List VaultEvent) : Finset String :=
  ((events.map (·.wallet)).filter fails).toFinset

/-- What the bus has got and what the summary counts, when a batch has dealt with the rows of the
events `done`; `new` are the messages that have come to the bus. -/
structure Accounts (fails : String → Bool) (done : List VaultEvent) (new : List Delivery)
    (before after : Bus) (s : Summary) : Prop where
  bus : after = { before with log := before.log ++ new }
  offsets : new.map (·.offset) = List.range' before.log.length new.length
  told : List.Forall₂ Delivery.Tells new (done.filter fun e => !fails e.wallet)
  sent : s.sent = new.length
  failed : s.failed = (failing fails done).card
  total : s.sent + s.failed + s.deferred = done.length

section

variable {fails : String → Bool} {done : List VaultEvent} {e : VaultEvent}

theorem mem_failing {x : String} :
    x ∈ failing fails done ↔ (∃ e ∈ done, e.wallet = x) ∧ fails x = true := by
  rw [failing, List.mem_toFinset, List.mem_filter, List.mem_map]

theorem failing_concat_of_fails (refused : fails e.wallet = true) :
    failing fails (done ++ [e]) = insert e.wallet (failing fails done) := by
  ext x
  simp only [failing, List.map_append, List.filter_append, List.toFinset_append, List.map_cons,
    List.map_nil, List.filter_cons, refused, if_true, List.filter_nil, Finset.mem_union,
    Finset.mem_insert, List.mem_toFinset, List.mem_singleton]
  exact or_comm

theorem failing_concat_of_takes (taken : fails e.wallet = false) :
    failing fails (done ++ [e]) = failing fails done := by
  simp [failing, taken]

namespace Accounts

variable {new : List Delivery} {before after : Bus} {s : Summary}

theorem nothing (before : Bus) (reclaimed claimed : Nat) :
    Accounts fails [] [] before before ⟨reclaimed, claimed, 0, 0, 0⟩ where
  bus := by rw [List.append_nil]
  offsets := rfl
  told := .nil
  sent := rfl
  failed := rfl
  total := rfl

theorem delivered (accounts : Accounts fails done new before after s)
    (taken : fails e.wallet = false) (t : Instant) :
    Accounts fails (done ++ [e])
      (new ++ [⟨after.log.length, e.wallet, (Message.ofEvent e t).toBytes⟩]) before
      (after.push e.wallet (Message.ofEvent e t).toBytes) { s with sent := s.sent + 1 } where
  bus := by
    rw [Bus.push, accounts.bus, List.append_assoc]
  offsets := by
    rw [List.map_append, accounts.offsets, accounts.bus, List.length_append, List.length_append,
      List.length_singleton, List.range'_1_concat]
    rfl
  told := by
    rw [List.filter_append, List.filter_cons_of_pos (by rw [taken]; rfl), List.filter_nil]
    exact List.rel_append accounts.told (.cons ⟨rfl, t, rfl⟩ .nil)
  sent := by rw [accounts.sent, List.length_append, List.length_singleton]
  failed := by rw [failing_concat_of_takes taken, accounts.failed]
  total := by
    have total := accounts.total
    change s.sent + 1 + s.failed + s.deferred = _
    rw [List.length_append, List.length_singleton]
    omega

theorem told_of_fails (accounts : Accounts fails done new before after s)
    (refused : fails e.wallet = true) :
    List.Forall₂ Delivery.Tells new ((done ++ [e]).filter fun e => !fails e.wallet) := by
  rw [List.filter_append, List.filter_cons_of_neg (by simp [refused]), List.filter_nil,
    List.append_nil]
  exact accounts.told

/-- The first row of a wallet that fails. -/
theorem refused (accounts : Accounts fails done new before after s)
    (refused : fails e.wallet = true) (first : e.wallet ∉ failing fails done) :
    Accounts fails (done ++ [e]) new before after { s with failed := s.failed + 1 } :=
  { accounts with
    told := accounts.told_of_fails refused
    failed := by
      rw [failing_concat_of_fails refused, Finset.card_insert_of_notMem first, accounts.failed]
    total := by
      have total := accounts.total
      change s.sent + (s.failed + 1) + s.deferred = _
      rw [List.length_append, List.length_singleton]
      omega }

/-- A row behind another of a wallet that has failed. -/
theorem deferred (accounts : Accounts fails done new before after s)
    (failed : e.wallet ∈ failing fails done) :
    Accounts fails (done ++ [e]) new before after { s with deferred := s.deferred + 1 } :=
  have refused := (mem_failing.mp failed).2
  { accounts with
    told := accounts.told_of_fails refused
    failed := by
      rw [failing_concat_of_fails refused, Finset.insert_eq_of_mem failed]
      exact accounts.failed
    total := by
      have total := accounts.total
      change s.sent + s.failed + (s.deferred + 1) = _
      rw [List.length_append, List.length_singleton]
      omega }

end Accounts

end

/-- What a batch has made of the desk `start`, and counted, when it has dealt with the rows of the
events `done`. -/
structure Outcome (fails : String → Bool) (start : Desk) (reclaimed claimed : Nat)
    (done : List VaultEvent) (s : Summary) (w : Desk) : Prop where
  rows : w.box.rows = start.box.rows.map (Outbox.Row.dealtWith fails done)
  accounts : ∃ new, Accounts fails done new start.bus w.bus s
  reclaimed : s.reclaimed = reclaimed
  claimed : s.claimed = claimed

/-- What holds between two rows of a batch: the wallets that have failed are known. -/
structure Dealt (fails : String → Bool) (start : Desk) (reclaimed claimed : Nat)
    (done : List VaultEvent) (p : Progress) (w : Desk) : Prop
    extends Outcome fails start reclaimed claimed done p.summary w where
  halted : ∀ x, x ∈ p.halted ↔ x ∈ failing fails done

section

variable {fails : String → Bool} {refuses : Outbox.Call → Prop} {start w : Desk}
  {reclaimed claimed : Nat} {done : List VaultEvent} {p : Progress}

theorem Dealt.nothing (start : Desk) (reclaimed claimed : Nat) :
    Dealt fails start reclaimed claimed [] ⟨⟨reclaimed, claimed, 0, 0, 0⟩, []⟩ start where
  rows := by
    rw [List.map_congr_left fun r _ => Outbox.Row.dealtWith_nil, List.map_id']
  accounts := ⟨[], .nothing start.bus reclaimed claimed⟩
  reclaimed := rfl
  claimed := rfl
  halted x := by simp [failing]

section

variable {e : VaultEvent}

/-- The next row is marked as sent behind its message. -/
theorem Dealt.delivered (dealt : Dealt fails start reclaimed claimed done p w)
    (keys : (start.box.events.map VaultEvent.key).Nodup)
    (held : ∃ r ∈ start.box.rows, r.event = e ∧ r.status = .processing) (new : e ∉ done)
    (taken : fails e.wallet = false) (t : Instant) :
    Dealt fails start reclaimed claimed (done ++ [e])
      { p with summary.sent := p.summary.sent + 1 }
      ⟨w.box.release e.ref .sent, w.bus.push e.wallet (Message.ofEvent e t).toBytes⟩ := by
  have rows := Outbox.rows_release_dealtWith keys dealt.rows held new
  rw [taken, if_neg Bool.false_ne_true] at rows
  obtain ⟨told, accounts⟩ := dealt.accounts
  refine ⟨⟨rows, ⟨_, accounts.delivered taken t⟩, dealt.reclaimed, dealt.claimed⟩, ?_⟩
  intro x
  rw [failing_concat_of_takes taken]
  exact dealt.halted x

/-- The next row is put back when the bus has refused its message, and its wallet halts. -/
theorem Dealt.refused (dealt : Dealt fails start reclaimed claimed done p w)
    (keys : (start.box.events.map VaultEvent.key).Nodup)
    (held : ∃ r ∈ start.box.rows, r.event = e ∧ r.status = .processing) (new : e ∉ done)
    (refused : fails e.wallet = true) (going : e.wallet ∉ p.halted) :
    Dealt fails start reclaimed claimed (done ++ [e])
      ⟨{ p.summary with failed := p.summary.failed + 1 }, e.wallet :: p.halted⟩
      ⟨w.box.release e.ref .unsent, w.bus⟩ := by
  have rows := Outbox.rows_release_dealtWith keys dealt.rows held new
  rw [refused, if_pos rfl] at rows
  obtain ⟨told, accounts⟩ := dealt.accounts
  have first : e.wallet ∉ failing fails done := fun failed => going ((dealt.halted _).mpr failed)
  refine ⟨⟨rows, ⟨told, accounts.refused refused first⟩, dealt.reclaimed, dealt.claimed⟩, ?_⟩
  intro x
  rw [failing_concat_of_fails refused, Finset.mem_insert, List.mem_cons]
  exact or_congr Iff.rfl (dealt.halted x)

/-- The next row is put back without a try when its wallet has halted. -/
theorem Dealt.deferred (dealt : Dealt fails start reclaimed claimed done p w)
    (keys : (start.box.events.map VaultEvent.key).Nodup)
    (held : ∃ r ∈ start.box.rows, r.event = e ∧ r.status = .processing) (new : e ∉ done)
    (halted : e.wallet ∈ p.halted) :
    Dealt fails start reclaimed claimed (done ++ [e])
      { p with summary.deferred := p.summary.deferred + 1 }
      ⟨w.box.release e.ref .unsent, w.bus⟩ := by
  have failed := (dealt.halted _).mp halted
  have refused := (mem_failing.mp failed).2
  have rows := Outbox.rows_release_dealtWith keys dealt.rows held new
  rw [refused, if_pos rfl] at rows
  obtain ⟨told, accounts⟩ := dealt.accounts
  refine ⟨⟨rows, ⟨told, accounts.deferred failed⟩, dealt.reclaimed, dealt.claimed⟩, ?_⟩
  intro x
  rw [failing_concat_of_fails refused, Finset.insert_eq_of_mem failed]
  exact dealt.halted x

end

/-- A batch deals with the next row, whatever has become of the rows before it. -/
theorem Dealt.ends_handle (marks : Desk.SparesMarks refuses)
    (keys : (start.box.events.map VaultEvent.key).Nodup)
    (dealt : Dealt fails start reclaimed claimed done p w) {row : OutboxEvent}
    (held : ∃ r ∈ start.box.rows, r.event = row.event ∧ r.status = .processing)
    (new : row.event ∉ done) :
    Ends (Desk.serving fails refuses) (handle row p).run w fun reply v =>
      ∃ p', reply = .ok p' ∧ Dealt fails start reclaimed claimed (done ++ [row.event]) p' v := by
  unfold handle
  by_cases halted : p.halted.contains row.event.wallet
  · simp only [halted, if_true]
    have waits := List.contains_iff_mem.mp halted
    exact Desk.ends_mark (marks _).2 (fun _ => rfl) ⟨_, rfl, dealt.deferred keys held new waits⟩
  · simp only [halted]
    have going : row.event.wallet ∉ p.halted := fun waits =>
      halted (List.contains_iff_mem.mpr waits)
    refine Ends.except_bind ((Desk.ends_deliver row.event w).mono ?_)
    rintro reply v (⟨rfl, taken, t, rfl⟩ | ⟨rfl, refused, rfl⟩)
    · have delivered := dealt.delivered keys held new taken t
      exact Desk.ends_mark (marks _).1 (fun _ => rfl) ⟨_, rfl, delivered⟩
    · have refused := dealt.refused keys held new refused going
      exact Desk.ends_mark (marks _).2 (fun _ => rfl) ⟨_, rfl, refused⟩

theorem Dealt.ends_handleAll (marks : Desk.SparesMarks refuses)
    (keys : (start.box.events.map VaultEvent.key).Nodup) {rows : List OutboxEvent}
    (held : ∀ row ∈ rows, ∃ r ∈ start.box.rows, r.event = row.event ∧ r.status = .processing)
    (distinct : (done ++ rows.map (·.event)).Nodup)
    (dealt : Dealt fails start reclaimed claimed done p w) :
    Ends (Desk.serving fails refuses) (handleAll rows p).run w fun reply v =>
      ∃ p', reply = .ok p' ∧
        Dealt fails start reclaimed claimed (done ++ rows.map (·.event)) p' v := by
  induction rows generalizing done p w with
  | nil =>
      rw [List.map_nil, List.append_nil]
      exact Ends.pure ⟨p, rfl, dealt⟩
  | cons row rows ih =>
      have next : done ++ (row :: rows).map (·.event) =
          (done ++ [row.event]) ++ rows.map (·.event) := by simp
      have new : row.event ∉ done := fun old =>
        (List.nodup_append.mp distinct).2.2 _ old _ List.mem_cons_self rfl
      have step := Dealt.ends_handle marks keys dealt (held row List.mem_cons_self) new
      rw [next] at distinct ⊢
      refine Ends.except_bind (Ends.bind (step.mono ?_))
      rintro reply v ⟨p', rfl, later⟩
      refine Ends.pure (ih ?_ distinct later)
      exact fun other member => held other (List.mem_cons_of_mem row member)

/-- What a batch has dealt with since its claim, it has dealt with since before. -/
theorem Dealt.outcome_of_claim {box : Outbox} (keys : (box.events.map VaultEvent.key).Nodup)
    {bus : Bus} {limit : Int} {now : Moment} {v : Desk}
    (dealt : Dealt fails ⟨(box.claim limit now).2, bus⟩ reclaimed claimed
      ((box.claimed limit).map (·.event)) p v) :
    Outcome fails ⟨box, bus⟩ reclaimed claimed ((box.claimed limit).map (·.event)) p.summary v := by
  refine { dealt.toOutcome with rows := ?_ }
  rw [dealt.rows, Outbox.rows_claim keys, List.map_map]
  exact List.map_congr_left fun r _ => Outbox.Row.dealtWith_hold now

/-- From its claim on, a batch deals with all that the claim has taken. -/
theorem Outcome.ends_handleAll (marks : Desk.SparesMarks refuses)
    {box : Outbox} (keys : (box.events.map VaultEvent.key).Nodup) (bus : Bus) (limit : Int)
    (now : Moment) {taken : List VaultEvent} (all : taken = (box.claimed limit).map (·.event)) :
    Ends (Desk.serving fails refuses)
      (handleAll (box.claim limit now).1
        ⟨⟨reclaimed, (box.claim limit now).1.length, 0, 0, 0⟩, []⟩).run
      ⟨(box.claim limit now).2, bus⟩ fun reply v =>
        ∃ p, reply = .ok p ∧ Outcome fails ⟨box, bus⟩ reclaimed taken.length taken p.summary v := by
  subst all
  have events := Outbox.events_claim limit now box
  have length := congrArg List.length events
  rw [List.length_map] at length
  have keys' : ((box.claim limit now).2.events.map VaultEvent.key).Nodup :=
    Outbox.nodup_keys_answer keys now (.claim limit)
  rw [length]
  refine (Dealt.ends_handleAll marks keys' (fun _ => Outbox.held_event_of_mem_claim) ?_
    (.nothing ⟨_, bus⟩ reclaimed _)).mono ?_
  · rw [List.nil_append, events]
    exact Outbox.nodup_events_claimed keys limit
  · rintro reply v ⟨p, rfl, dealt⟩
    rw [List.nil_append, events] at dealt
    exact ⟨p, rfl, dealt.outcome_of_claim keys⟩

/-- A batch without failing marks ends with an error only if the sweep or the claim has failed, and
then has done nothing but sweep. Else it has sent, in the order of the claim, the messages of the
taken rows but for the failing wallets, whose rows it has put back. -/
theorem outcome_of_batch {w v : Desk} (reached : w.box.Reachable) (fails : String → Bool)
    {refuses : Outbox.Call → Prop} (marks : Desk.SparesMarks refuses)
    (plan : Plan) {reply : Except StoreFault Summary}
    (run : Program.Runs (Desk.serving fails refuses) (batch plan).run w reply v) :
    (∃ fault, reply = .error fault ∧ v.bus = w.bus ∧
      (refuses (.reclaim plan.reclaimAfter) ∧ v.box = w.box ∨
        refuses (.claim plan.batchSize) ∧
          ∃ now, v.box = w.box.sweep (now - .ofMillis plan.reclaimAfter))) ∨
    ∃ limit taken s, (∃ now : Moment, limit = now - .ofMillis plan.reclaimAfter) ∧
      taken = ((w.box.sweep limit).claimed plan.batchSize).map (·.event) ∧ reply = .ok s ∧
      Outcome fails ⟨w.box.sweep limit, w.bus⟩ (w.box.rows.countP (Outbox.Row.isStale limit))
        taken.length taken s v := by
  obtain ⟨_, _, swept, rest⟩ := Program.runs_except_bind_iff.mp run
  rcases Program.runs_perform_iff.mp swept with ⟨now, rfl, rfl⟩ | ⟨refused, fault, rfl, rfl⟩
  swap
  · obtain ⟨rfl, rfl⟩ := rest
    exact .inl ⟨fault, rfl, rfl, .inl ⟨refused, rfl⟩⟩
  obtain ⟨_, _, claim, last⟩ := Program.runs_except_bind_iff.mp rest
  rcases Program.runs_perform_iff.mp claim with ⟨later, rfl, rfl⟩ | ⟨refused, fault, rfl, rfl⟩
  swap
  · obtain ⟨rfl, rfl⟩ := last
    exact .inl ⟨fault, rfl, rfl, .inr ⟨refused, now, rfl⟩⟩
  have keys := (Outbox.Reachable.step (.reclaim plan.reclaimAfter) now reached).nodup_keys
  obtain ⟨_, _, handled, done⟩ := Program.runs_except_bind_iff.mp last
  obtain ⟨p, rfl, outcome⟩ :=
    Outcome.ends_handleAll marks keys w.bus plan.batchSize later rfl _ _ handled
  obtain ⟨rfl, rfl⟩ := done
  exact .inr ⟨_, _, p.summary, ⟨now, rfl⟩, rfl, rfl, outcome⟩

def mixedRow (place : Nat) (wallet : String) (status : OutboxStatus) : Outbox.Row where
  event := { sampleEvent (place + 1) with wallet }
  status := status
  createdAt := Outbox.recordedAt place
  claimedAt := if status = .processing then some 0 else none

/-- The rows of two wallets, one of which fails. -/
def mixedDesk (first second third : OutboxStatus) (log : List Delivery) : Desk :=
  ⟨⟨[mixedRow 0 "w" first, mixedRow 1 "x" second, mixedRow 2 "w" third]⟩, ⟨log, 0, 0⟩⟩

def mixedDelivery : Delivery :=
  ⟨0, "x", (Message.ofEvent (mixedRow 1 "x" .unsent).event (.ofUnixMillis 0)).toBytes⟩

theorem claim_mixedDesk :
    Outbox.answer 0 (.claim 3) (mixedDesk .unsent .unsent .unsent []).box =
      (.ok [(mixedRow 0 "w" .processing).toOutboxEvent, (mixedRow 1 "x" .processing).toOutboxEvent,
        (mixedRow 2 "w" .processing).toOutboxEvent],
        (mixedDesk .processing .processing .processing []).box) := by
  have ordered : (mixedDesk .unsent .unsent .unsent []).box.Ordered := ⟨by decide, by decide⟩
  have claimed : (mixedDesk .unsent .unsent .unsent []).box.claimed 3 =
      [(mixedRow 0 "w" .unsent).toOutboxEvent, (mixedRow 1 "x" .unsent).toOutboxEvent,
        (mixedRow 2 "w" .unsent).toOutboxEvent] := by
    rw [ordered.claimed_eq]
    rfl
  change Prod.map Except.ok id ((mixedDesk .unsent .unsent .unsent []).box.claim 3 0) = _
  rw [Outbox.claim, claimed]
  rfl

theorem serving_claim_mixedDesk (fails : String → Bool) (refuses : Outbox.Call → Prop) :
    Desk.serving fails refuses (.outbox (.claim 3)) (mixedDesk .unsent .unsent .unsent [])
      (.ok [(mixedRow 0 "w" .processing).toOutboxEvent, (mixedRow 1 "x" .processing).toOutboxEvent,
        (mixedRow 2 "w" .processing).toOutboxEvent])
      (mixedDesk .processing .processing .processing []) := by
  refine .inl ⟨0, ?_, ?_⟩
  · rw [claim_mixedDesk]
  · rw [claim_mixedDesk]
    rfl

theorem reachable_mixedDesk : (mixedDesk .unsent .unsent .unsent []).box.Reachable :=
  .step (.record (mixedRow 2 "w" .unsent).event) 0
    (.step (.record (mixedRow 1 "x" .unsent).event) 0
      (.step (.record (mixedRow 0 "w" .unsent).event) 0 .empty))

theorem runs_mixed_batch :
    Program.Runs (Desk.serving (· = "w") fun _ => False) (batch ⟨3, 0⟩).run
      (mixedDesk .unsent .unsent .unsent []) (.ok ⟨0, 3, 1, 1, 1⟩)
      (mixedDesk .unsent .sent .unsent [mixedDelivery]) := by
  refine ⟨.ok 0, _, .inl ⟨0, rfl, rfl⟩, ?_⟩
  refine ⟨_, _, serving_claim_mixedDesk _ _, ?_⟩
  -- the first row is refused
  refine ⟨.ofUnixMillis 0, _, rfl, ?_⟩
  refine ⟨.error .timedOut, _, (Desk.serving_send_of_fails rfl).mpr ⟨⟨_, rfl⟩, rfl⟩, ?_⟩
  refine ⟨.ok (), mixedDesk .unsent .processing .processing [], .inl ⟨0, rfl, rfl⟩, ?_⟩
  -- the row of the other wallet is sent
  refine ⟨.ofUnixMillis 0, _, rfl, ?_⟩
  refine ⟨.ok (), mixedDesk .unsent .processing .processing [mixedDelivery],
    (Desk.serving_send_of_takes rfl).mpr ⟨rfl, rfl⟩, ?_⟩
  refine ⟨.ok (), mixedDesk .unsent .sent .processing [mixedDelivery], .inl ⟨0, rfl, rfl⟩, ?_⟩
  -- the last row is put back without a try
  refine ⟨.ok (), mixedDesk .unsent .sent .unsent [mixedDelivery], .inl ⟨0, rfl, rfl⟩, ?_⟩
  exact ⟨rfl, rfl⟩

theorem outcome_of_mixed_batch :
    ∃ limit taken, taken =
        (((mixedDesk .unsent .unsent .unsent []).box.sweep limit).claimed 3).map (·.event) ∧
      Outcome (· = "w") ⟨(mixedDesk .unsent .unsent .unsent []).box.sweep limit, ⟨[], 0, 0⟩⟩
        ((mixedDesk .unsent .unsent .unsent []).box.rows.countP (Outbox.Row.isStale limit))
        taken.length taken ⟨0, 3, 1, 1, 1⟩ (mixedDesk .unsent .sent .unsent [mixedDelivery]) := by
  rcases outcome_of_batch reachable_mixedDesk (· = "w") (fun _ => ⟨id, id⟩) ⟨3, 0⟩
    runs_mixed_batch with ⟨fault, failed, -⟩ | ⟨limit, taken, s, -, all, same, outcome⟩
  · cases failed
  · cases same
    exact ⟨limit, taken, all, outcome⟩

end

end Publish

end VaultTransfers
