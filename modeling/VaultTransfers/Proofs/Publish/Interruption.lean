import VaultTransfers.Proofs.Publish.Outcome

/-!
A batch that is stopped by a mark. Which marks fail is told by their numbers in
the batch: while no mark fails, the row with the number is marked; behind the
first that fails, the row whose mark has failed and all rows behind it are put
back, each by one more mark, which may fail as well. Rows whose marks have failed
twice over are still held, and left to the sweep.
-/

namespace VaultTransfers

namespace Outbox

/-- The row when the rows of the events `rest` have been put back, the first of them by the mark
number `n`. A mark that is lost has no effect. -/
def Row.putBack (lost : Nat → Option StoreFault) (n : Nat) (rest : List VaultEvent) (r : Row) :
    Row :=
  if r.event ∈ rest ∧ lost (n + rest.idxOf r.event) = none then r.letGo .unsent else r

/-- The row behind a batch that has dealt with the rows of the events `before`, and has put back
those of the events `rest`: it is held if the mark that should have put it back is lost. -/
def Row.leftBy (fails : String → Bool) (lost : Nat → Option StoreFault) (now : Moment)
    (before rest : List VaultEvent) (r : Row) : Row :=
  if r.event ∈ before then r.letGo (if fails r.event.wallet then .unsent else .sent)
  else if r.event ∈ rest then
    if lost (before.length + 1 + rest.idxOf r.event) = none then r.letGo .unsent else r.hold now
  else r

section

variable {fails : String → Bool} {lost : Nat → Option StoreFault} {n : Nat} {now : Moment}
  {e : VaultEvent} {before rest : List VaultEvent} {r : Row}

theorem Row.putBack_of_notMem (other : r.event ∉ rest) : r.putBack lost n rest = r :=
  if_neg fun ⟨member, _⟩ => other member

/-- Rows are put back one after the other. -/
theorem Row.putBack_cons (new : e ∉ rest) :
    r.putBack lost n (e :: rest) =
      (if r.event = e ∧ lost n = none then r.letGo .unsent else r).putBack lost (n + 1) rest := by
  by_cases same : r.event = e
  · subst same
    have other :
        (if r.event = r.event ∧ lost n = none then r.letGo .unsent else r).event ∉ rest := by
      split
      · exact new
      · exact new
    rw [putBack_of_notMem other]
    simp [putBack]
  · rw [if_neg fun ⟨here, _⟩ => same here]
    have index : n + (e :: rest).idxOf r.event = n + 1 + rest.idxOf r.event := by
      rw [List.idxOf_cons_ne rest (Ne.symm same)]
      omega
    simp [putBack, index, same]

theorem Row.event_leftBy : (r.leftBy fails lost now before rest).event = r.event := by
  unfold leftBy
  split
  · rfl
  · split
    · split
      · rfl
      · rfl
    · rfl

/-- A row that was claimed at `now`, then dealt with or put back. -/
theorem Row.leftBy_eq (apart : (before ++ rest).Nodup) :
    ((if r.event ∈ before ++ rest then r.hold now else r).dealtWith fails before).putBack lost
      (before.length + 1) rest = r.leftBy fails lost now before rest := by
  by_cases ahead : r.event ∈ before
  · have other : r.event ∉ rest := fun behind =>
      (List.nodup_append.mp apart).2.2 _ ahead _ behind rfl
    simp [leftBy, dealtWith, putBack, ahead, other, hold, letGo]
  · by_cases behind : r.event ∈ rest
    · by_cases kept : lost (before.length + 1 + rest.idxOf r.event) = none
      · simp [leftBy, dealtWith, putBack, ahead, behind, kept, hold, letGo]
      · simp [leftBy, dealtWith, putBack, ahead, behind, kept, hold]
    · simp [leftBy, dealtWith, putBack, ahead, behind]

/-- A sweep puts back what a stopped batch has left held. -/
theorem Row.sweep_leftBy {limit : Moment} (old : now < limit) (apart : (before ++ rest).Nodup)
    (behind : r.event ∈ rest) :
    let r' := r.leftBy fails lost now before rest
    (if r'.isStale limit then r'.letGo .unsent else r') = r.letGo .unsent := by
  have other : r.event ∉ before := fun ahead =>
    (List.nodup_append.mp apart).2.2 _ ahead _ behind rfl
  by_cases kept : lost (before.length + 1 + rest.idxOf r.event) = none
  · simp [leftBy, other, behind, kept, isStale, isHeld, letGo]
  · simp [leftBy, other, behind, kept, isStale, isHeld, hold, letGo, old]

end

/-- The call is a mark. -/
def Call.isMark : Call → Bool
  | .markSent _ | .markFailed _ => true
  | _ => false

end Outbox

namespace Publish

open Program (Ends)

/-- A desk, and how many marks have been tried on it. -/
structure Trial where
  desk : Desk
  marks : Nat

namespace Trial

/-- The answers of a desk where a mark fails, without effect, if `lost` has a fault for its
number. -/
def serving (fails : String → Bool) (refuses : Outbox.Call → Prop)
    (lost : Nat → Option StoreFault) : Service Publish.interface Trial := fun c w reply after =>
  match c with
  | .outbox c =>
    if c.isMark then
      after.marks = w.marks + 1 ∧
        match lost w.marks with
        | some fault => reply = .error fault ∧ after.desk = w.desk
        | none => Desk.serving fails (fun _ => False) (.outbox c) w.desk reply after.desk
    else after.marks = w.marks ∧ Desk.serving fails refuses (.outbox c) w.desk reply after.desk
  | c => after.marks = w.marks ∧ Desk.serving fails refuses c w.desk reply after.desk

section

variable {fails : String → Bool} {refuses : Outbox.Call → Prop} {lost : Nat → Option StoreFault}
  {w v : Trial}

theorem serving_of_mark {c : Outbox.Call} {reply : Except StoreFault (Outbox.Value c)}
    (mark : c.isMark = true) :
    serving fails refuses lost (.outbox c) w reply v ↔ v.marks = w.marks + 1 ∧
      ((∃ fault, lost w.marks = some fault ∧ reply = .error fault ∧ v.desk = w.desk) ∨
        lost w.marks = none ∧
          Desk.serving fails (fun _ => False) (.outbox c) w.desk reply v.desk) := by
  refine (iff_of_eq (if_pos mark)).trans (and_congr_right fun _ => ?_)
  cases lost w.marks with
  | some fault =>
      simp only [Option.some.injEq, exists_eq_left', reduceCtorEq, false_and, or_false]
      rfl
  | none => simp only [reduceCtorEq, false_and, exists_false, true_and, false_or]

theorem serving_of_other {c : Outbox.Call} {reply : Except StoreFault (Outbox.Value c)}
    (other : c.isMark = false) {desk : Desk} {m : Nat} :
    serving fails refuses lost (.outbox c) ⟨desk, m⟩ reply v ↔
      ∃ desk', v = ⟨desk', m⟩ ∧ Desk.serving fails refuses (.outbox c) desk reply desk' := by
  refine (iff_of_eq (if_neg (by simp [other]))).trans ?_
  constructor
  · rintro ⟨rfl, served⟩
    exact ⟨v.desk, rfl, served⟩
  · rintro ⟨desk', rfl, served⟩
    exact ⟨rfl, served⟩

theorem ends_mark {c : Outbox.Call} {value : Outbox.Value c} {box : Outbox} {α : Type} {a : α}
    {post : Except StoreFault α → Trial → Prop} (mark : c.isMark = true)
    (marks : ∀ now, Outbox.answer now c w.desk.box = (.ok value, box))
    (made : lost w.marks = none → post (.ok a) ⟨⟨box, w.desk.bus⟩, w.marks + 1⟩)
    (missed : ∀ fault, lost w.marks = some fault → post (.error fault) ⟨w.desk, w.marks + 1⟩) :
    Ends (serving fails refuses lost) (askOutbox c >>= fun _ => pure a).run w post := by
  refine Ends.except_bind (Ends.perform ?_)
  rintro reply ⟨desk, m⟩ served
  obtain ⟨rfl, ⟨fault, fails, rfl, rfl⟩ | ⟨works, ⟨now, rfl, rfl⟩ | ⟨never, -⟩⟩⟩ :=
    (serving_of_mark mark).mp served
  · exact missed fault fails
  · rw [marks now]
    exact Ends.pure (made works)
  · exact never.elim

/-- A message is delivered as at the desk. -/
theorem ends_deliver (e : VaultEvent) (w : Trial) :
    Ends (serving fails refuses lost) (deliver e).run w fun reply v =>
      v.marks = w.marks ∧
        (reply = .ok true ∧ fails e.wallet = false ∧
            (∃ t, v.desk = w.desk.push e.wallet (Message.ofEvent e t).toBytes) ∨
          reply = .ok false ∧ fails e.wallet = true ∧ v.desk = w.desk) := by
  rintro reply v ⟨t, u, ⟨same, timed⟩, ack, v', ⟨same', served⟩, rfl, rfl⟩
  refine ⟨same'.trans same, ?_⟩
  exact Desk.ends_deliver e w.desk _ _ ⟨t, u.desk, timed, ack, _, served, rfl, rfl⟩

theorem ends_release (keys : (w.desk.box.events.map VaultEvent.key).Nodup)
    {rows : List OutboxEvent}
    (held : ∀ row ∈ rows, ∃ r ∈ w.desk.box.rows, r.event = row.event ∧ r.status = .processing)
    (distinct : (rows.map (·.event)).Nodup) :
    Ends (serving fails refuses lost) (release rows) w fun _ v =>
      v.desk.bus = w.desk.bus ∧ v.desk.box.rows =
        w.desk.box.rows.map (Outbox.Row.putBack lost w.marks (rows.map (·.event))) := by
  induction rows generalizing w with
  | nil =>
      refine Ends.pure ⟨rfl, ?_⟩
      have same : w.desk.box.rows.map (Outbox.Row.putBack lost w.marks []) =
          w.desk.box.rows.map id :=
        List.map_congr_left fun r _ => Outbox.Row.putBack_of_notMem List.not_mem_nil
      rw [List.map_nil, same, List.map_id]
  | cons row rows ih =>
      obtain ⟨new, distinct⟩ := List.nodup_cons.mp distinct
      obtain ⟨r, member, event, here⟩ := held row List.mem_cons_self
      refine Ends.bind (Ends.perform ?_)
      rintro reply ⟨desk, m⟩ served
      -- what the first mark makes of the rows
      have step : desk.bus = w.desk.bus ∧ m = w.marks + 1 ∧ desk.box.rows = w.desk.box.rows.map
          fun a => if a.event = row.event ∧ lost w.marks = none then a.letGo .unsent else a := by
        obtain ⟨rfl, ⟨fault, missed, -, rfl⟩ | ⟨made, ⟨now, -, rfl⟩ | ⟨never, -⟩⟩⟩ :=
          (serving_of_mark rfl).mp served
        · refine ⟨rfl, rfl, ?_⟩
          simp [missed]
        · refine ⟨rfl, rfl, ?_⟩
          have rows := Outbox.rows_release keys member here .unsent
          rw [event] at rows
          simp only [made, and_true]
          exact rows
        · exact never.elim
      obtain ⟨bus, rfl, changed⟩ := step
      have events : desk.box.events = w.desk.box.events := by
        rw [Outbox.events, changed, List.map_map]
        refine List.map_congr_left fun a _ => ?_
        rw [Function.comp_apply]
        split
        · rfl
        · rfl
      have held' : ∀ later ∈ rows,
          ∃ r ∈ desk.box.rows, r.event = later.event ∧ r.status = .processing := by
        intro later among
        obtain ⟨b, b_mem, same, waits⟩ := held later (List.mem_cons_of_mem row among)
        refine ⟨b, ?_, same, waits⟩
        rw [changed]
        refine List.mem_map.mpr ⟨b, b_mem, if_neg ?_⟩
        rintro ⟨clash, -⟩
        exact new (List.mem_map.mpr ⟨later, among, same.symm.trans clash⟩)
      refine (ih (events ▸ keys) held' distinct).mono ?_
      rintro _ v ⟨bus', rows'⟩
      refine ⟨bus'.trans bus, ?_⟩
      rw [rows', changed, List.map_map]
      exact List.map_congr_left fun a _ => (Outbox.Row.putBack_cons new).symm

end

end Trial

section

variable {fails : String → Bool} {refuses : Outbox.Call → Prop} {lost : Nat → Option StoreFault}
  {start : Desk} {w : Trial} {reclaimed claimed : Nat} {done : List VaultEvent} {p : Progress}

/-- A batch deals with the next row up to its mark, which is made or is lost. -/
theorem Dealt.ends_try (keys : (start.box.events.map VaultEvent.key).Nodup)
    (dealt : Dealt fails start reclaimed claimed done p w.desk) {row : OutboxEvent}
    (held : ∃ r ∈ start.box.rows, r.event = row.event ∧ r.status = .processing)
    (new : row.event ∉ done) :
    Ends (Trial.serving fails refuses lost) (handle row p).run w fun reply v =>
      v.marks = w.marks + 1 ∧ ∃ p' box,
        Dealt fails start reclaimed claimed (done ++ [row.event]) p' ⟨box, v.desk.bus⟩ ∧
          (lost w.marks = none ∧ reply = .ok p' ∧ v.desk.box = box ∨
            ∃ fault, lost w.marks = some fault ∧ reply = .error fault ∧
              v.desk.box = w.desk.box) := by
  unfold handle
  by_cases halted : p.halted.contains row.event.wallet
  · simp only [halted, if_true]
    have next := dealt.deferred keys held new (List.contains_iff_mem.mp halted)
    refine Trial.ends_mark rfl (fun _ => rfl) ?_ ?_
    · exact fun made => ⟨rfl, _, _, next, .inl ⟨made, rfl, rfl⟩⟩
    · exact fun fault missed => ⟨rfl, _, _, next, .inr ⟨fault, missed, rfl, rfl⟩⟩
  · simp only [halted]
    have going : row.event.wallet ∉ p.halted := fun waits =>
      halted (List.contains_iff_mem.mpr waits)
    refine Ends.except_bind ((Trial.ends_deliver row.event w).mono ?_)
    rintro reply ⟨desk, m⟩ ⟨rfl, ⟨rfl, taken, t, rfl⟩ | ⟨rfl, refused, rfl⟩⟩
    · have next := dealt.delivered keys held new taken t
      refine Trial.ends_mark rfl (fun _ => rfl) ?_ ?_
      · exact fun made => ⟨rfl, _, _, next, .inl ⟨made, rfl, rfl⟩⟩
      · exact fun fault missed => ⟨rfl, _, _, next, .inr ⟨fault, missed, rfl, rfl⟩⟩
    · have next := dealt.refused keys held new refused going
      refine Trial.ends_mark rfl (fun _ => rfl) ?_ ?_
      · exact fun made => ⟨rfl, _, _, next, .inl ⟨made, rfl, rfl⟩⟩
      · exact fun fault missed => ⟨rfl, _, _, next, .inr ⟨fault, missed, rfl, rfl⟩⟩

/-- What is left of the desk `start` when the rows of the events `before` have been dealt with, the
mark of the next row has failed, and this row and those behind it have been put back. -/
structure Stopped (fails : String → Bool) (lost : Nat → Option StoreFault) (start : Desk)
    (before rest : List VaultEvent) (v : Desk) : Prop where
  rows : v.box.rows = start.box.rows.map fun r =>
    (r.dealtWith fails before).putBack lost (before.length + 1) rest
  accounts : ∃ new s, Accounts fails (before ++ rest.take 1) new start.bus v.bus s

theorem Dealt.ends_tryAll (keys : (start.box.events.map VaultEvent.key).Nodup)
    {rows : List OutboxEvent} {taken : List VaultEvent} (split : taken = done ++ rows.map (·.event))
    (held : ∀ row ∈ rows, ∃ r ∈ start.box.rows, r.event = row.event ∧ r.status = .processing)
    (distinct : taken.Nodup) (dealt : Dealt fails start reclaimed claimed done p w.desk)
    (counted : w.marks = done.length) (made : ∀ j < done.length, lost j = none) :
    Ends (Trial.serving fails refuses lost) (handleAll rows p).run w fun reply v =>
      ((∀ j < taken.length, lost j = none) ∧
          ∃ p', reply = .ok p' ∧ Dealt fails start reclaimed claimed taken p' v.desk) ∨
        ∃ before e rest fault, taken = before ++ e :: rest ∧ (∀ j < before.length, lost j = none) ∧
          lost before.length = some fault ∧ reply = .error fault ∧
            Stopped fails lost start before (e :: rest) v.desk := by
  induction rows generalizing done p w with
  | nil =>
      rw [List.map_nil, List.append_nil] at split
      subst split
      exact Ends.pure (.inl ⟨made, p, rfl, dealt⟩)
  | cons row rows ih =>
      have next : taken = (done ++ [row.event]) ++ rows.map (·.event) := by simp [split]
      have distinct' := distinct
      rw [split] at distinct'
      obtain ⟨-, behind, apart⟩ := List.nodup_append.mp distinct'
      have new : row.event ∉ done := fun old => apart _ old _ List.mem_cons_self rfl
      refine Ends.except_bind (Ends.bind
        ((Dealt.ends_try keys dealt (held row List.mem_cons_self) new).mono ?_))
      rintro reply ⟨desk, m⟩ ⟨rfl, p', box, later, outcome⟩
      obtain ⟨fine, rfl, rfl⟩ | ⟨fault, missed, rfl, same⟩ := outcome
      · -- the mark is made, and the batch goes on
        refine Ends.pure (ih next ?_ later ?_ ?_)
        · exact fun other member => held other (List.mem_cons_of_mem row member)
        · rw [counted, List.length_append, List.length_singleton]
        · intro j below
          rw [List.length_append, List.length_singleton] at below
          by_cases last : j = done.length
          · rw [last, ← counted]
            exact fine
          · exact made j (by omega)
      · -- the mark is lost, and what is left of the rows is put back
        have unchanged : desk.box.rows = start.box.rows.map (Outbox.Row.dealtWith fails done) := by
          rw [same]
          exact dealt.rows
        have events : desk.box.events = start.box.events := Outbox.events_dealtWith unchanged
        have held' : ∀ other ∈ row :: rows,
            ∃ r ∈ desk.box.rows, r.event = other.event ∧ r.status = .processing := by
          intro other member
          obtain ⟨r, r_mem, event, waits⟩ := held other member
          have ahead : r.event ∉ done := fun old =>
            apart _ old _ (event ▸ List.mem_map_of_mem member) rfl
          exact ⟨r, Outbox.mem_rows_dealtWith unchanged r_mem ahead, event, waits⟩
        refine Ends.pure (Ends.except_bind (Ends.bind
          ((Trial.ends_release (events ▸ keys) held' behind).mono ?_)))
        rintro _ v ⟨bus, rows'⟩
        refine Ends.pure (Ends.pure (.inr ⟨done, row.event, rows.map (·.event), fault, ?_⟩))
        refine ⟨split, made, counted ▸ missed, rfl, ?_, ?_⟩
        · rw [rows', unchanged, List.map_map, counted]
          rfl
        · obtain ⟨told, accounts⟩ := later.accounts
          exact ⟨told, p'.summary, bus.symm ▸ accounts⟩

/-- What a batch leaves of the desk `start` when it has claimed the rows of the events
`before ++ rest` at `now` and has stopped at the mark of the first of `rest`. -/
structure Interrupted (fails : String → Bool) (lost : Nat → Option StoreFault) (start : Desk)
    (now : Moment) (before rest : List VaultEvent) (v : Desk) : Prop where
  apart : (before ++ rest).Nodup
  rows : v.box.rows = start.box.rows.map (Outbox.Row.leftBy fails lost now before rest)
  /-- What is still held is put back by any sweep of what was held since then. -/
  recoverable : ∀ limit, now < limit → ∀ r ∈ (v.box.sweep limit).rows, r.event ∈ rest →
    r.status = .unsent ∧ r.claimedAt = none
  /-- The bus has got the messages up to the row whose mark has failed, and none behind it. -/
  bus : ∃ new, v.bus = { start.bus with log := start.bus.log ++ new } ∧
    new.map (·.offset) = List.range' start.bus.log.length new.length ∧
      List.Forall₂ Delivery.Tells new
        ((before ++ rest.take 1).filter fun e => !fails e.wallet)

theorem Interrupted.of_stopped {box : Outbox} (keys : (box.events.map VaultEvent.key).Nodup)
    {bus : Bus} {limit : Int} {now : Moment} {before rest : List VaultEvent} {v : Desk}
    (all : (box.claimed limit).map (·.event) = before ++ rest)
    (stopped : Stopped fails lost ⟨(box.claim limit now).2, bus⟩ before rest v) :
    Interrupted fails lost ⟨box, bus⟩ now before rest v := by
  have apart : (before ++ rest).Nodup := all ▸ Outbox.nodup_events_claimed keys limit
  have rows : v.box.rows = box.rows.map (Outbox.Row.leftBy fails lost now before rest) := by
    rw [stopped.rows, Outbox.rows_claim keys, List.map_map, all]
    exact List.map_congr_left fun r _ => Outbox.Row.leftBy_eq apart
  refine ⟨apart, rows, ?_, ?_⟩
  · intro sweep old r member behind
    obtain ⟨r', among, rfl⟩ := List.mem_map.mp member
    rw [rows] at among
    obtain ⟨a, -, rfl⟩ := List.mem_map.mp among
    have event : a.event ∈ rest := by
      rw [apply_ite Outbox.Row.toOutboxEvent, apply_ite OutboxEvent.event] at behind
      simpa [Outbox.Row.letGo, Outbox.Row.event_leftBy] using behind
    rw [Outbox.Row.sweep_leftBy old apart event]
    exact ⟨rfl, rfl⟩
  · obtain ⟨told, s, accounts⟩ := stopped.accounts
    exact ⟨told, accounts.bus, accounts.offsets, accounts.told⟩

/-- From its claim on, a batch deals with all that the claim has taken, or is stopped. -/
theorem ends_tryAll_claim {box : Outbox} (keys : (box.events.map VaultEvent.key).Nodup) (bus : Bus)
    (limit : Int) (now : Moment) {taken : List VaultEvent}
    (all : taken = (box.claimed limit).map (·.event)) :
    Ends (Trial.serving fails refuses lost)
      (handleAll (box.claim limit now).1
        ⟨⟨reclaimed, (box.claim limit now).1.length, 0, 0, 0⟩, []⟩).run
      ⟨⟨(box.claim limit now).2, bus⟩, 0⟩ fun reply v =>
        (∀ j < taken.length, lost j = none) ∧ (∃ p, reply = .ok p ∧
            Outcome fails ⟨box, bus⟩ reclaimed taken.length taken p.summary v.desk) ∨
          ∃ before e rest fault, taken = before ++ e :: rest ∧
            (∀ j < before.length, lost j = none) ∧ lost before.length = some fault ∧
              reply = .error fault ∧
                Interrupted fails lost ⟨box, bus⟩ now before (e :: rest) v.desk := by
  subst all
  have events := Outbox.events_claim limit now box
  have keys' : ((box.claim limit now).2.events.map VaultEvent.key).Nodup :=
    Outbox.nodup_keys_answer keys now (.claim limit)
  have length := congrArg List.length events
  rw [List.length_map] at length
  rw [length]
  refine (Dealt.ends_tryAll keys' (events ▸ (List.nil_append _).symm)
    (fun _ => Outbox.held_event_of_mem_claim) (Outbox.nodup_events_claimed keys limit)
    (.nothing ⟨_, bus⟩ reclaimed _) rfl ?_).mono ?_
  · intro j none_
    exact absurd none_ (Nat.not_lt_zero j)
  rintro reply v (⟨made, p, rfl, dealt⟩ | ⟨before, e, rest, fault, all, made, missed, rfl, stopped⟩)
  · exact .inl ⟨made, p, rfl, dealt.outcome_of_claim keys⟩
  · exact .inr ⟨before, e, rest, fault, all, made, missed, rfl, .of_stopped keys all stopped⟩

/-- While no mark fails, a batch comes to what it comes to without failing marks. At the first mark
that fails, it ends with the fault of this mark: the rows before it are dealt with, nothing behind
it is sent, and it and all behind it are put back, or held where their marks fail, too. -/
theorem interruption_of_batch {w : Desk} {v : Trial} (reached : w.box.Reachable)
    (fails : String → Bool) (refuses : Outbox.Call → Prop) (lost : Nat → Option StoreFault)
    (plan : Plan) {reply : Except StoreFault Summary}
    (run : Program.Runs (Trial.serving fails refuses lost) (batch plan).run ⟨w, 0⟩ reply v) :
    (∃ fault, reply = .error fault ∧ v.desk.bus = w.bus ∧
      (refuses (.reclaim plan.reclaimAfter) ∧ v.desk.box = w.box ∨
        refuses (.claim plan.batchSize) ∧
          ∃ now, v.desk.box = w.box.sweep (now - .ofMillis plan.reclaimAfter))) ∨
    ∃ limit now taken, (∃ time : Moment, limit = time - .ofMillis plan.reclaimAfter) ∧
      taken = ((w.box.sweep limit).claimed plan.batchSize).map (·.event) ∧
      ((∀ j < taken.length, lost j = none) ∧ (∃ s, reply = .ok s ∧
          Outcome fails ⟨w.box.sweep limit, w.bus⟩
            (w.box.rows.countP (Outbox.Row.isStale limit)) taken.length taken s v.desk) ∨
        ∃ before e rest fault, taken = before ++ e :: rest ∧
          (∀ j < before.length, lost j = none) ∧ lost before.length = some fault ∧
          reply = .error fault ∧
            Interrupted fails lost ⟨w.box.sweep limit, w.bus⟩ now before (e :: rest) v.desk) := by
  obtain ⟨_, _, swept, rest⟩ := Program.runs_except_bind_iff.mp run
  obtain ⟨_, rfl, served⟩ := (Trial.serving_of_other rfl).mp (Program.runs_perform_iff.mp swept)
  rcases served with ⟨time, rfl, rfl⟩ | ⟨refused, fault, rfl, rfl⟩
  swap
  · obtain ⟨rfl, rfl⟩ := rest
    exact .inl ⟨fault, rfl, rfl, .inl ⟨refused, rfl⟩⟩
  obtain ⟨_, _, claim, last⟩ := Program.runs_except_bind_iff.mp rest
  obtain ⟨_, rfl, served⟩ := (Trial.serving_of_other rfl).mp (Program.runs_perform_iff.mp claim)
  rcases served with ⟨now, rfl, rfl⟩ | ⟨refused, fault, rfl, rfl⟩
  swap
  · obtain ⟨rfl, rfl⟩ := last
    exact .inl ⟨fault, rfl, rfl, .inr ⟨refused, time, rfl⟩⟩
  have keys := (Outbox.Reachable.step (.reclaim plan.reclaimAfter) time reached).nodup_keys
  obtain ⟨_, _, handled, done⟩ := Program.runs_except_bind_iff.mp last
  refine .inr ⟨_, now, _, ⟨time, rfl⟩, rfl, ?_⟩
  rcases ends_tryAll_claim keys w.bus plan.batchSize now rfl _ _ handled with
    ⟨made, p, rfl, outcome⟩ | ⟨before, e, behind, fault, split, made, missed, rfl, interrupted⟩
  · obtain ⟨rfl, rfl⟩ := done
    exact .inl ⟨made, p.summary, rfl, outcome⟩
  · obtain ⟨rfl, rfl⟩ := done
    exact .inr ⟨before, e, behind, fault, split, made, missed, rfl, interrupted⟩

/-- The second mark of a batch fails, and the second of those that put rows back. -/
def mixedLosses (n : Nat) : Option StoreFault :=
  if n = 1 ∨ n = 3 then some (.database .timedOut) else none

theorem runs_interrupted_batch :
    Program.Runs (Trial.serving (· = "w") (fun _ => False) mixedLosses) (batch ⟨3, 0⟩).run
      ⟨mixedDesk .unsent .unsent .unsent [], 0⟩ (.error (.database .timedOut))
      ⟨mixedDesk .unsent .unsent .processing [mixedDelivery], 4⟩ := by
  refine ⟨.ok 0, ⟨mixedDesk .unsent .unsent .unsent [], 0⟩, ⟨rfl, .inl ⟨0, rfl, rfl⟩⟩, ?_⟩
  refine ⟨_, ⟨mixedDesk .processing .processing .processing [], 0⟩,
    ⟨rfl, serving_claim_mixedDesk _ _⟩, ?_⟩
  -- the first row is refused and marked
  refine ⟨.ofUnixMillis 0, ⟨mixedDesk .processing .processing .processing [], 0⟩, ⟨rfl, rfl⟩, ?_⟩
  refine ⟨.error .timedOut, ⟨mixedDesk .processing .processing .processing [], 0⟩,
    ⟨rfl, (Desk.serving_send_of_fails rfl).mpr ⟨⟨_, rfl⟩, rfl⟩⟩, ?_⟩
  refine ⟨.ok (), ⟨mixedDesk .unsent .processing .processing [], 1⟩,
    ⟨rfl, .inl ⟨0, rfl, rfl⟩⟩, ?_⟩
  -- the second row is sent, but its mark is lost
  refine ⟨.ofUnixMillis 0, ⟨mixedDesk .unsent .processing .processing [], 1⟩, ⟨rfl, rfl⟩, ?_⟩
  refine ⟨.ok (), ⟨mixedDesk .unsent .processing .processing [mixedDelivery], 1⟩,
    ⟨rfl, (Desk.serving_send_of_takes rfl).mpr ⟨rfl, rfl⟩⟩, ?_⟩
  refine ⟨.error (.database .timedOut),
    ⟨mixedDesk .unsent .processing .processing [mixedDelivery], 2⟩, ⟨rfl, rfl, rfl⟩, ?_⟩
  -- it is put back, and the third row stays held
  refine ⟨.ok (), ⟨mixedDesk .unsent .unsent .processing [mixedDelivery], 3⟩,
    ⟨rfl, .inl ⟨0, rfl, rfl⟩⟩, ?_⟩
  refine ⟨.error (.database .timedOut), ⟨mixedDesk .unsent .unsent .processing [mixedDelivery], 4⟩,
    ⟨rfl, rfl, rfl⟩, ?_⟩
  exact ⟨rfl, rfl⟩

theorem interruption_of_mixed_batch :
    ∃ limit now before e rest,
      (((mixedDesk .unsent .unsent .unsent []).box.sweep limit).claimed 3).map (·.event) =
        before ++ e :: rest ∧ before.length = 1 ∧
      Interrupted (· = "w") mixedLosses
        ⟨(mixedDesk .unsent .unsent .unsent []).box.sweep limit, ⟨[], 0, 0⟩⟩ now before (e :: rest)
        (mixedDesk .unsent .unsent .processing [mixedDelivery]) := by
  have lost (n : Nat) (fault : StoreFault) (fails : mixedLosses n = some fault) :
      n = 1 ∨ n = 3 := by
    by_contra other
    rw [mixedLosses, if_neg other] at fails
    cases fails
  rcases interruption_of_batch reachable_mixedDesk (· = "w") (fun _ => False) mixedLosses ⟨3, 0⟩
    runs_interrupted_batch with
    ⟨fault, -, -, ⟨never, -⟩ | ⟨never, -⟩⟩ | ⟨limit, now, taken, -, rfl, ended⟩
  · exact never.elim
  · exact never.elim
  · rcases ended with ⟨-, s, failed, -⟩ |
      ⟨before, e, rest, fault, split, made, missed, -, interrupted⟩
    · cases failed
    · refine ⟨limit, now, before, e, rest, split, ?_, interrupted⟩
      rcases lost _ _ missed with first | third
      · exact first
      · have second := made 1 (by omega)
        cases second

end

end Publish

end VaultTransfers
