import VaultTransfers.Proofs.Publish.Batch
import VaultTransfers.Proofs.Publish.Discipline

/-!
Publishers that work on one outbox at the same time, each call at any time and
in any order, put the rows of a wallet on the bus in the order of discovery.
A batch keeps to the discipline because of what it was claimed with: ahead of a
row that it has still to send, every row of the wallet is on the bus or stands
before it in the batch.
-/

namespace VaultTransfers.Publish

open Program (Meets)

/-- What a batch may still rely on about the rows that it has still to deal with. -/
def Pending (halted : List String) (rows : List OutboxEvent) (w : Desk) : Prop :=
  ∀ before b after, rows = before ++ b :: after → b.event.wallet ∉ halted →
    b.entry ∈ w.box.entries ∧
      ∀ a ∈ w.box.entries, a.event.wallet = b.event.wallet → a.foundBefore b = true →
        w.bus.Has a.event.key ∨ ∃ c ∈ before, c.entry = a

namespace Pending

variable {halted : List String} {row : OutboxEvent} {rows : List OutboxEvent} {w v : Desk}

theorem of_moves (pending : Pending halted rows w) (sound : v.Sound) (moved : w.Moves v) :
    Pending halted rows v := by
  intro before b after split going
  obtain ⟨b_mem, earlier⟩ := pending before b after split going
  obtain ⟨added, grown⟩ := moved.1
  refine ⟨moved.1.subset b_mem, ?_⟩
  intro a a_mem wallet found
  rw [← grown] at a_mem
  rcases List.mem_append.mp a_mem with old | new
  · rcases earlier a old wallet found with has | claimed
    · exact .inl (has.mono moved.2)
    · exact .inr claimed
  · -- a row that has come since is found behind the claimed one
    have order := sound.ordered.found
    rw [← grown] at order
    have behind := (List.pairwise_append.mp order).2.2 _ b_mem a new
    have never : a.foundBefore b = false := OutboxEvent.not_foundBefore_of_foundBefore behind
    rw [found] at never
    simp at never

theorem isNext (pending : Pending halted (row :: rows) w) (going : row.event.wallet ∉ halted) :
    w.IsNext row := by
  obtain ⟨row_mem, earlier⟩ := pending [] row rows rfl going
  refine ⟨row_mem, ?_⟩
  intro a a_mem wallet found
  rcases earlier a a_mem wallet found with has | ⟨c, none, -⟩
  · exact has
  · simp at none

theorem tail_of_has (pending : Pending halted (row :: rows) w) (has : w.bus.Has row.event.key) :
    Pending halted rows w := by
  intro before b after split going
  obtain ⟨b_mem, earlier⟩ := pending (row :: before) b after (by rw [split]; rfl) going
  refine ⟨b_mem, ?_⟩
  intro a a_mem wallet found
  rcases earlier a a_mem wallet found with onBus | ⟨c, member, same⟩
  · exact .inl onBus
  · rcases List.mem_cons.mp member with rfl | later
    · rw [← same]
      exact .inl has
    · exact .inr ⟨c, later, same⟩

theorem tail_of_halted (pending : Pending halted (row :: rows) w)
    (more : List String) (kept : halted ⊆ more) (stopped : row.event.wallet ∈ more) :
    Pending more rows w := by
  intro before b after split going
  obtain ⟨b_mem, earlier⟩ := pending (row :: before) b after (by rw [split]; rfl)
    fun member => going (kept member)
  refine ⟨b_mem, ?_⟩
  intro a a_mem wallet found
  rcases earlier a a_mem wallet found with onBus | ⟨c, member, same⟩
  · exact .inl onBus
  · rcases List.mem_cons.mp member with rfl | later
    · refine absurd ?_ going
      rw [← wallet, ← same]
      exact stopped
    · exact .inr ⟨c, later, same⟩

end Pending

theorem Pending.of_claim {limit : Int} {now : Moment} {w : Desk} (sound : w.Sound) :
    Pending [] (w.box.claim limit now).1 ⟨(w.box.claim limit now).2, w.bus⟩ := by
  intro before b after split _
  have entries := Outbox.entries_claim limit now w.box
  obtain ⟨b_mem, earlier⟩ := sound.ordered.sent_or_claimed_before split
  refine ⟨entries.symm ▸ b_mem, ?_⟩
  intro a a_mem wallet found
  rw [entries] at a_mem
  obtain ⟨r, r_mem, rfl⟩ := List.mem_map.mp a_mem
  rcases earlier r r_mem wallet found with sent | claimed
  · exact .inl (sound.sent r r_mem sent)
  · exact .inr claimed

theorem grants_pending : Grants discipline Pending fun e w => w.bus.Has e.key where
  now _ := trivial
  reclaim _ _ := trivial
  claim _ _ := trivial
  putBack _ _ := trivial
  send _ row _ t _ pending going := ⟨row, pending.isNext going, rfl, t, rfl⟩
  markSent _ _ _ _ _ has := has
  claimed := by
    rintro limit rows w v sound (⟨now, answer, rfl⟩ | ⟨fault, failed, -⟩)
    · obtain rfl := Except.ok.inj answer
      exact Pending.of_claim sound
    · cases failed
  sent := by
    rintro e time w v (⟨-, rfl⟩ | ⟨fault, failed, -⟩)
    · refine ⟨⟨w.bus.log.length, e.wallet, (Message.ofEvent e time).toBytes⟩, ?_, ?_⟩
      · exact List.mem_append_right _ List.mem_cons_self
      · exact (Desk.carries_iff rfl).mpr rfl
    · cases failed
  ready_of_moves _ _ _ _ pending moved sound := pending.of_moves sound moved
  told_of_moves _ _ _ has moved := has.mono moved.2
  pass _ _ _ _ pending has := pending.tail_of_has has
  halt _ more _ _ _ pending kept stopped := pending.tail_of_halted more kept stopped

/-- What happens to the outbox without any publisher: an event is recorded, or recorded again, or
held rows are put back, whoever holds them. -/
inductive Environment : Desk → Desk → Prop
  | record {w : Desk} (e : VaultEvent) (same : ∀ r ∈ w.box.rows, r.event.key = e.key → r.event = e)
      (room : (∀ r ∈ w.box.rows, r.event.key ≠ e.key) → w.box.rows.length < Outbox.capacity) :
      Environment w { w with box := w.box.record e }
  | sweep {w : Desk} (chosen : Outbox.Row → Bool) :
      Environment w { w with box := ⟨w.box.rows.map fun r =>
        if r.isHeld && chosen r then r.letGo .unsent else r⟩ }

theorem Desk.Sound.record_new {w : Desk} (sound : w.Sound) {e : VaultEvent}
    (new : ∀ r ∈ w.box.rows, r.event.key ≠ e.key) (room : w.box.rows.length < Outbox.capacity) :
    Desk.Sound { w with box := w.box.record e } ∧ w.Moves { w with box := w.box.record e } := by
  have length : w.box.entries.length = w.box.rows.length := List.length_map _
  have entries := Outbox.entries_record_of_new new
  have last : ∀ a ∈ w.box.entries,
      a.foundBefore ⟨e, .unsent, Outbox.recordedAt w.box.rows.length⟩ = true := by
    intro a member
    have time : a.createdAt ∈ w.box.entries.map (·.createdAt) := List.mem_map_of_mem member
    have times : w.box.entries.map (·.createdAt) =
        (List.range w.box.entries.length).map Outbox.recordedAt := sound.timed
    rw [times, length] at time
    obtain ⟨i, earlier, same⟩ := List.mem_map.mp time
    rw [OutboxEvent.foundBefore_iff, ← same]
    exact .inl (Outbox.recordedAt_before (List.mem_range.mp earlier) room)
  have unheard : ¬ w.bus.Has e.key := by
    rintro ⟨d, member, carries⟩
    obtain ⟨a, among, -, t, payload⟩ := sound.sources d member
    rw [Desk.carries_iff payload] at carries
    obtain ⟨r, row, rfl⟩ := List.mem_map.mp among
    exact new r row carries
  refine ⟨⟨sound.ordered.record_of_new new last, sound.timed.record_of_new new, ?_, ?_, ?_⟩, ?_,
    List.prefix_rfl⟩
  · intro r member sent
    simp only [Outbox.record_of_new new] at member
    rcases List.mem_append.mp member with old | added
    · exact sound.sent r old sent
    · rw [List.mem_singleton.mp added] at sent
      simp at sent
  · intro d member
    obtain ⟨a, among, source⟩ := sound.sources d member
    exact ⟨a, by simp [entries, among], source⟩
  · intro a a_mem b b_mem wallet found before d after split carries
    simp only [entries, List.mem_append, List.mem_singleton] at a_mem b_mem
    rcases b_mem with b_old | rfl
    · rcases a_mem with a_old | rfl
      · exact sound.inOrder a a_old b b_old wallet found before d after split carries
      · -- the new row is not found before any other
        rw [OutboxEvent.not_foundBefore_of_foundBefore (last b b_old)] at found
        simp at found
    · refine absurd ⟨d, ?_, carries⟩ unheard
      have log : w.bus.log = before ++ d :: after := split
      simp [log]
  · exact entries ▸ List.prefix_append _ _

theorem sound_of_environment {w v : Desk} (sound : w.Sound) (happens : Environment w v) :
    v.Sound ∧ w.Moves v := by
  cases happens with
  | record e same room =>
      by_cases known : ∃ r ∈ w.box.rows, r.event.key = e.key
      · rw [Outbox.record_of_known same known]
        exact ⟨sound, List.prefix_rfl, List.prefix_rfl⟩
      · have new : ∀ r ∈ w.box.rows, r.event.key ≠ e.key :=
          fun r member key => known ⟨r, member, key⟩
        exact sound.record_new new (room new)
  | sweep chosen =>
      have entries : Outbox.entries ⟨w.box.rows.map fun r =>
          if r.isHeld && chosen r then r.letGo .unsent else r⟩ = w.box.entries := by
        refine Outbox.entries_map ?_ w.box
        intro r
        split
        · rfl
        · rfl
      refine ⟨sound.of_same entries rfl ?_, Desk.Moves.of_entries entries List.prefix_rfl⟩
      intro r member sent
      obtain ⟨before, among, rfl⟩ := List.mem_map.mp member
      split at sent
      · simp [Outbox.Row.letGo] at sent
      · rename_i kept
        rw [if_neg kept]
        exact sound.sent before among sent

theorem sound_empty : Desk.empty.Sound where
  ordered := ⟨List.nodup_nil, List.Pairwise.nil⟩
  timed := rfl
  sent := by
    intro r member
    exact absurd member List.not_mem_nil
  sources := by
    intro d member
    exact absurd member List.not_mem_nil
  inOrder := by
    intro a member
    exact absurd member List.not_mem_nil

/-- A batch of any plan may be started at any time. -/
def IsBatch (p : Program Publish.interface (Except StoreFault Summary)) : Prop :=
  ∃ plan, p = (batch plan).run

/-- The outboxes and buses, with the batches at work, that can come about. -/
abbrev Reachable : Pool Publish.interface Desk (Except StoreFault Summary) → Prop :=
  Pool.Reachable Desk.serves IsBatch Environment Desk.empty

theorem Reachable.sound {p : Pool Publish.interface Desk (Except StoreFault Summary)}
    (reachable : Reachable p) : p.state.Sound := by
  have orderly : Pool.Orderly discipline p := by
    refine Pool.Reachable.orderly ?_ ?_ sound_empty reachable
    · rintro j w ⟨plan, rfl⟩ _
      exact meets_batch grants_pending plan w
    · intro w v sound happens
      exact sound_of_environment sound happens
  exact orderly.1

/-- In front of every message of a row stands one of each earlier row of the wallet. -/
theorem earlier_row_published_first {p : Pool Publish.interface Desk (Except StoreFault Summary)}
    (reachable : Reachable p) {a b : Outbox.Row} (a_mem : a ∈ p.state.box.rows)
    (b_mem : b ∈ p.state.box.rows) (wallet : a.event.wallet = b.event.wallet)
    (found : a.foundBefore b.toOutboxEvent = true) {before after : List Delivery} {d : Delivery}
    (split : p.state.bus.log = before ++ d :: after) (carries : d.Carries b.event.key) :
    ∃ d' ∈ before, d'.Carries a.event.key :=
  reachable.sound.inOrder a.entry (Outbox.mem_entries a_mem) b.entry (Outbox.mem_entries b_mem)
    wallet found before d after split carries

/-- A fulfilment of five tokens at a block. -/
def sampleEvent (block : Nat) : VaultEvent where
  txHash := "0x" ++ String.ofList (Nat.toDigits 16 block)
  logIndex := 0
  blockNumber := .ofNat block
  date := .ofUnixMillis 0
  wallet := "w"
  amount := "5"
  fromAsset := "share"
  toAsset := "token"
  payload := .withdrawalCompleted ⟨"w", "share", "token", "5", "5", "0"⟩

def sampleRow (place : Nat) (status : OutboxStatus) (claimedAt : Option Moment) : Outbox.Row where
  event := sampleEvent (place + 1)
  status := status
  createdAt := Outbox.recordedAt place
  claimedAt := claimedAt

def sampleDelivery (place : Nat) : Delivery :=
  ⟨place, "w", (Message.ofEvent (sampleEvent (place + 1)) (.ofUnixMillis 0)).toBytes⟩

def sampleDesk (first second : OutboxStatus) (claimedAt : Option Moment) (sent : Nat) : Desk :=
  ⟨⟨[sampleRow 0 first (if first = .processing then claimedAt else none),
      sampleRow 1 second (if second = .processing then claimedAt else none)]⟩,
    ⟨(List.range sent).map sampleDelivery, 0, 0⟩⟩

theorem runs_sample_batch :
    Program.Runs Desk.serves (batch ⟨2, 0⟩).run (sampleDesk .unsent .unsent none 0)
      (.ok ⟨0, 2, 2, 0, 0⟩) (sampleDesk .sent .sent none 2) := by
  have ordered : (sampleDesk .unsent .unsent none 0).box.Ordered := ⟨by decide, by decide⟩
  have claimed : (sampleDesk .unsent .unsent none 0).box.claimed 2 =
      [(sampleRow 0 .unsent none).toOutboxEvent, (sampleRow 1 .unsent none).toOutboxEvent] := by
    rw [ordered.claimed_eq]
    rfl
  have claim : (sampleDesk .unsent .unsent none 0).box.claim 2 0 =
      ([(sampleRow 0 .processing none).toOutboxEvent,
        (sampleRow 1 .processing none).toOutboxEvent],
        (sampleDesk .processing .processing (some 0) 0).box) := by
    rw [Outbox.claim, claimed]
    rfl
  have taken : Desk.serves (.outbox (.claim 2)) (sampleDesk .unsent .unsent none 0)
      (.ok [(sampleRow 0 .processing none).toOutboxEvent,
        (sampleRow 1 .processing none).toOutboxEvent])
      (sampleDesk .processing .processing (some 0) 0) := by
    have answer : Outbox.answer 0 (.claim 2) (sampleDesk .unsent .unsent none 0).box =
        (.ok ((sampleDesk .unsent .unsent none 0).box.claim 2 0).1,
          ((sampleDesk .unsent .unsent none 0).box.claim 2 0).2) := rfl
    rw [claim] at answer
    refine .inl ⟨0, ?_, ?_⟩
    · rw [answer]
    · rw [answer]
      rfl
  refine ⟨.ok 0, _, .inl ⟨0, rfl, rfl⟩, ?_⟩
  refine ⟨_, _, taken, ?_⟩
  refine ⟨.ofUnixMillis 0, _, rfl, ?_⟩
  refine ⟨.ok (), sampleDesk .processing .processing (some 0) 1, .inl ⟨rfl, rfl⟩, ?_⟩
  refine ⟨.ok (), sampleDesk .sent .processing (some 0) 1, .inl ⟨0, rfl, rfl⟩, ?_⟩
  refine ⟨.ofUnixMillis 0, _, rfl, ?_⟩
  refine ⟨.ok (), sampleDesk .sent .processing (some 0) 2, .inl ⟨rfl, rfl⟩, ?_⟩
  refine ⟨.ok (), sampleDesk .sent .sent (some 0) 2, .inl ⟨0, rfl, rfl⟩, ?_⟩
  exact ⟨rfl, rfl⟩

theorem earlier_row_published_first_in_sample_batch :
    ∃ d ∈ [sampleDelivery 0], d.Carries (sampleEvent 1).key := by
  have first : Environment Desk.empty ⟨⟨[sampleRow 0 .unsent none]⟩, .empty⟩ :=
    .record (sampleEvent 1) (by decide) (by decide)
  have second : Environment ⟨⟨[sampleRow 0 .unsent none]⟩, .empty⟩
      (sampleDesk .unsent .unsent none 0) :=
    .record (sampleEvent 2) (by decide) (by decide)
  have recorded : Reachable ⟨sampleDesk .unsent .unsent none 0, []⟩ :=
    (Pool.Reachable.start.step (.environment first)).step (.environment second)
  have started := recorded.step (.start (batch ⟨2, 0⟩).run ⟨_, rfl⟩)
  have sent := started.of_advances [] runs_sample_batch.advances
  have split : (sampleDesk .sent .sent none 2).bus.log =
      [sampleDelivery 0] ++ sampleDelivery 1 :: [] := rfl
  exact earlier_row_published_first sent (a := sampleRow 0 .sent none) (b := sampleRow 1 .sent none)
    (by decide) (by decide) (by decide) (by decide) split ((Desk.carries_iff rfl).mpr rfl)

end VaultTransfers.Publish
