import Mathlib.Logic.Relation
import VaultTransfers.Proofs.Publish.Order
import VaultTransfers.Proofs.Scan.Coverage
import VaultTransfers.Proofs.Scan.Recording
import VaultTransfers.Proofs.Store.Passage
import VaultTransfers.Proofs.Transfer.Stream

/-!
Scanners and publishers that work on one outbox and one bus. Any call may fail,
and what a store or the bus has failed to confirm may have been done; anyone may
be dropped between two calls, and held rows may be put back at any time, so that
a mark may come late. Every row goes through its life all the same, and none
comes to be sent that the bus does not tell the event of.
-/

namespace VaultTransfers

/-- The event that the message is of. -/
def Message.event (m : Message) : Except Json.ShapeFault VaultEvent :=
  m.payload.map fun payload =>
    { txHash := m.txHash
      logIndex := m.logIndex
      blockNumber := m.blockNumber
      date := m.date
      wallet := m.wallet
      amount := m.amount
      fromAsset := m.fromAsset
      toAsset := m.toAsset
      payload := payload }

theorem Message.event_ofEvent (e : VaultEvent) (t : Instant) : (ofEvent e t).event = .ok e := by
  rw [event, payload_ofEvent]
  rfl

/-- The bus has a message of the event, under the key of its wallet. -/
def Bus.Tells (bus : Bus) (e : VaultEvent) : Prop :=
  ∃ d ∈ bus.log, d.Tells e

theorem Bus.Tells.mono {bus later : Bus} {e : VaultEvent} (tells : bus.Tells e)
    (grown : bus.log <+: later.log) : later.Tells e := by
  obtain ⟨d, member, same⟩ := tells
  exact ⟨d, grown.subset member, same⟩

namespace Lifecycle

open Program (Advances Meets)
open Publish (Desk)
open Scan.Shared (Attempt)

inductive Role where
  | scanner
  | publisher

def services : Role → Interface
  | .scanner => Scan.interface
  | .publisher => Publish.interface

/-- An operation on the outbox, at any time of the clock. It may fail, with or without effect; under
each key, one event is recorded. -/
def outboxServes (told : EventKey → VaultEvent) (c : Outbox.Call) (w : Desk)
    (reply : Outbox.interface.Reply c) (v : Desk) : Prop :=
  (∀ e, c = .record e → told e.key = e) ∧
    ∃ now box, Attempt (Outbox.answer now c w.box) w.box reply box ∧ v = { w with box }

/-- All answers that a scanner may get: of the chain what nodes tell, and elsewhere anything. -/
def scanServes (told : EventKey → VaultEvent) :
    (c : Scan.Call) → Desk → Scan.Reply c → Desk → Prop
  | .outbox c, w, reply, v => outboxServes told c w reply v
  | .chain c, w, reply, v => Chain.Tells c reply ∧ v = w
  | .watchList _, w, _, v => v = w
  | .cursor _, w, _, v => v = w
  | .knows _, w, _, v => v = w
  | .remember _, w, _, v => v = w
  | .stopRequested, w, _, v => v = w

/-- All answers that a publisher may get. -/
def publishServes (told : EventKey → VaultEvent) :
    (c : Publish.Call) → Desk → Publish.Reply c → Desk → Prop
  | .outbox c, w, reply, v => outboxServes told c w reply v
  | .now, w, _, v => v = w
  | .send key payload, w, reply, v =>
    reply = .ok () ∧ v = w.push key payload ∨
      ∃ fault, reply = .error fault ∧ (v = w ∨ v = w.push key payload)

def serves (told : EventKey → VaultEvent) : Service (.family services) Desk
  | ⟨.scanner, c⟩ => scanServes told c
  | ⟨.publisher, c⟩ => publishServes told c

/-- Ticks of scanners and batches of publishers. -/
inductive Works : Program (.family services) Unit → Prop
  | tick (plan : Scan.Plan) : Works ((Scan.tick plan).run.on (I := services) .scanner)
  | batch (plan : Publish.Plan) : Works ((Publish.batch plan).run.on (I := services) .publisher)

/-- Held rows are put back, whoever holds them. -/
inductive Sweeps : Desk → Desk → Prop
  | sweep {w : Desk} (chosen : Outbox.Row → Bool) :
      Sweeps w { w with box := ⟨w.box.rows.map fun r =>
        if r.isHeld && chosen r then r.letGo .unsent else r⟩ }

abbrev Works.Step (told : EventKey → VaultEvent) :
    Pool (.family services) Desk Unit → Pool (.family services) Desk Unit → Prop :=
  Pool.Step (serves told) Works Sweeps

/-- The outboxes and buses, with the ticks and batches at work, that can come about. -/
abbrev Reachable (told : EventKey → VaultEvent) : Pool (.family services) Desk Unit → Prop :=
  Pool.Reachable (serves told) Works Sweeps Desk.empty

structure Sound (told : EventKey → VaultEvent) (w : Desk) : Prop where
  keys : (w.box.events.map VaultEvent.key).Nodup
  tidy : ∀ r ∈ w.box.rows, r.IsTidy
  told : ∀ r ∈ w.box.rows, told r.event.key = r.event
  dated : ∀ r ∈ w.box.rows, r.event.date.OnClock
  sent : ∀ r ∈ w.box.rows, r.status = .sent → w.bus.Tells r.event

/-- An event is recorded only with a date that a clock shows, and a row is marked as sent only if the
bus tells its event. -/
def Marks (told : EventKey → VaultEvent) (w : Desk) : Outbox.Call → Prop
  | .record e => e.date.OnClock
  | .markSent ref => ∃ e, e.ref = ref ∧ told e.key = e ∧ w.bus.Tells e
  | _ => True

def Allowed (told : EventKey → VaultEvent) : (Interface.family services).Call → Desk → Prop
  | ⟨.scanner, c⟩, _ => Scan.Call.Records c
  | ⟨.publisher, .outbox c⟩, w => Marks told w c
  | ⟨.publisher, _⟩, _ => True

section

variable {told : EventKey → VaultEvent} {w v : Desk} {c : Outbox.Call}
  {reply : Outbox.interface.Reply c}

/-- What is recorded under a key that is known is the event that is known. -/
theorem Sound.same (sound : Sound told w) (recorded : ∀ e, c = .record e → told e.key = e) :
    ∀ e, c = .record e → ∀ r ∈ w.box.rows, r.event.key = e.key → r.event = e := by
  intro e call r member key
  rw [← sound.told r member, key, recorded e call]

theorem Sound.becomes (sound : Sound told w) (served : outboxServes told c w reply v) :
    w.box.Becomes v.box ∧ v.bus = w.bus := by
  obtain ⟨recorded, now, box, attempt, rfl⟩ := served
  refine ⟨?_, rfl⟩
  rcases attempt.state with rfl | rfl
  · exact .refl _
  · exact Outbox.becomes_answer sound.keys now (sound.same recorded)

theorem Sound.outbox (sound : Sound told w) (marks : Marks told w c)
    (served : outboxServes told c w reply v) : Sound told v := by
  have becomes := (sound.becomes served).1
  obtain ⟨recorded, now, box, attempt, rfl⟩ := served
  have same := sound.same recorded
  rcases attempt.state with rfl | rfl
  · exact sound
  · have told' : ∀ r ∈ (Outbox.answer now c w.box).2.rows, told r.event.key = r.event := by
      intro r member
      rcases Outbox.mem_events_answer now (List.mem_map_of_mem member) same with old | call
      · obtain ⟨a, among, event⟩ := List.mem_map.mp old
        rw [← event]
        exact sound.told a among
      · exact recorded r.event call
    refine ⟨Outbox.nodup_keys_answer sound.keys now c, ?_, told', ?_, ?_⟩
    · intro r member
      rcases becomes.origin member with ⟨a, among, row⟩ | ⟨waiting, free⟩
      · exact row.isTidy (sound.tidy a among)
      · simp [Outbox.Row.IsTidy, waiting, free]
    · intro r member
      rcases Outbox.mem_events_answer now (List.mem_map_of_mem member) same with old | rfl
      · obtain ⟨a, among, event⟩ := List.mem_map.mp old
        rw [← event]
        exact sound.dated a among
      · exact marks
    · intro r member sent
      rcases Outbox.sent_or_marked now member sent same with old | rfl
      · exact sound.sent r old sent
      · -- the event that the bus tells is the one of the row
        obtain ⟨e, ref, known, tells⟩ := marks
        have key : e.key = r.event.key := congrArg RowRef.key ref
        rw [key, told' r member] at known
        exact known ▸ tells

theorem Sound.push (sound : Sound told w) (key : String) (payload : List UInt8) :
    Sound told (w.push key payload) :=
  { sound with
    sent := fun r member sent => (sound.sent r member sent).mono (List.prefix_append _ _) }

theorem answered_scan {c : Scan.Call} {reply : Scan.Reply c} (sound : Sound told w)
    (records : Scan.Call.Records c) (served : scanServes told c w reply v) :
    Sound told v ∧ w.bus.log <+: v.bus.log := by
  cases c with
  | outbox c =>
      have marks : Marks told w c := by
        cases c with
        | record e => exact records
        | _ => exact records.elim
      exact ⟨sound.outbox marks served, (sound.becomes served).2 ▸ List.prefix_rfl⟩
  | chain c =>
      obtain ⟨-, rfl⟩ := served
      exact ⟨sound, List.prefix_rfl⟩
  | _ =>
      obtain rfl : v = w := served
      exact ⟨sound, List.prefix_rfl⟩

theorem answered_publish {c : Publish.Call} {reply : Publish.Reply c} (sound : Sound told w)
    (allowed : Allowed told ⟨.publisher, c⟩ w) (served : publishServes told c w reply v) :
    Sound told v ∧ w.bus.log <+: v.bus.log := by
  cases c with
  | outbox c => exact ⟨sound.outbox allowed served, (sound.becomes served).2 ▸ List.prefix_rfl⟩
  | now =>
      obtain rfl : v = w := served
      exact ⟨sound, List.prefix_rfl⟩
  | send key payload =>
      have pushed : Sound told (w.push key payload) ∧ w.bus.log <+: (w.push key payload).bus.log :=
        ⟨sound.push key payload, List.prefix_append _ _⟩
      rcases served with ⟨-, rfl⟩ | ⟨fault, -, rfl | rfl⟩
      · exact pushed
      · exact ⟨sound, List.prefix_rfl⟩
      · exact pushed

end

def discipline (told : EventKey → VaultEvent) : Discipline (.family services) Desk where
  serve := serves told
  good := Sound told
  moves w v := w.bus.log <+: v.bus.log
  allowed := Allowed told
  moves_refl _ := List.prefix_rfl
  moves_trans _ _ _ first second := first.trans second
  answered := by
    rintro ⟨role, c⟩ w reply v sound allowed served
    cases role with
    | scanner => exact answered_scan sound allowed served
    | publisher => exact answered_publish sound allowed served

section

variable {told : EventKey → VaultEvent} {w : Desk}

theorem meets_tick (plan : Scan.Plan) (w : Desk) :
    Meets ((discipline told).on .scanner) (Scan.tick plan).run w fun _ _ => True := by
  refine Program.Asks.meets ?_ ?_ (Scan.onlyRecords_tick plan) w
  · intro c v records _
    exact records
  · intro c w reply v served
    cases c with
    | chain c => exact served.1
    | _ => trivial

/-- What a publisher has to keep to. -/
abbrev publishing (told : EventKey → VaultEvent) : Discipline Publish.interface Desk :=
  (discipline told).on .publisher

/-- A row that is handed out has the event of its key. -/
theorem Sound.told_of_claimed (sound : Sound told w) {limit : Int} {rows : List OutboxEvent}
    {v : Desk} (served : outboxServes told (.claim limit) w (.ok rows) v) :
    ∀ row ∈ rows, told row.event.key = row.event := by
  obtain ⟨-, now, box, answer | ⟨fault, failed, -⟩, -⟩ := served
  · have handed : rows = (w.box.claim limit now).1 := Except.ok.inj (congrArg Prod.fst answer)
    intro row member
    rw [handed] at member
    obtain ⟨t, among, rfl⟩ := List.mem_map.mp member
    obtain ⟨r, r_mem, rfl, -⟩ := Outbox.claimable_of_mem_claimed among
    exact sound.told r r_mem
  · cases failed

/-- What a publisher relies on about its rows is that they have the events of their keys. -/
theorem grants_told : Publish.Grants (publishing told)
    (fun _ rows _ => ∀ row ∈ rows, told row.event.key = row.event)
    (fun e w => w.bus.Tells e) where
  now _ := trivial
  reclaim _ _ := trivial
  claim _ _ := trivial
  putBack _ _ := trivial
  send _ _ _ _ _ _ _ := trivial
  markSent _ row _ _ known tells := ⟨row.event, rfl, known row List.mem_cons_self, tells⟩
  claimed _ _ _ _ sound served := sound.told_of_claimed served
  sent := by
    rintro e time w v (⟨-, rfl⟩ | ⟨fault, failed, -⟩)
    · exact ⟨_, List.mem_append_right _ List.mem_cons_self, rfl, time, rfl⟩
    · cases failed
  ready_of_moves _ _ _ _ known _ _ := known
  told_of_moves _ _ _ tells moved := tells.mono moved
  pass _ _ _ _ known _ row later := known row (List.mem_cons_of_mem _ later)
  halt _ _ _ _ _ known _ _ row later := known row (List.mem_cons_of_mem _ later)

theorem Sweeps.becomes {v : Desk} (sweeps : Sweeps w v) : w.box.Becomes v.box ∧ v.bus = w.bus := by
  cases sweeps with
  | sweep chosen =>
      refine ⟨Outbox.becomes_map ?_, rfl⟩
      intro r _
      split
      · rename_i held
        rw [Bool.and_eq_true, Outbox.Row.isHeld, decide_eq_true_eq] at held
        exact .putBack held.1
      · exact .same

theorem Sound.sweep {v : Desk} (sound : Sound told w) (sweeps : Sweeps w v) : Sound told v := by
  have becomes := sweeps.becomes.1
  cases sweeps with
  | sweep chosen =>
      let swept (r : Outbox.Row) := if r.isHeld && chosen r then r.letGo .unsent else r
      have entry (r : Outbox.Row) : (swept r).entry = r.entry := by
        unfold swept
        split
        · rfl
        · rfl
      refine ⟨?_, ?_, ?_, ?_, ?_⟩
      · change ((Outbox.events ⟨w.box.rows.map swept⟩).map VaultEvent.key).Nodup
        rw [Outbox.events_of_entries (Outbox.entries_map entry w.box)]
        exact sound.keys
      · intro r member
        rcases becomes.origin member with ⟨a, among, row⟩ | ⟨waiting, free⟩
        · exact row.isTidy (sound.tidy a among)
        · simp [Outbox.Row.IsTidy, waiting, free]
      · intro r member
        obtain ⟨a, among, rfl⟩ := List.mem_map.mp member
        change told (swept a).entry.event.key = (swept a).entry.event
        rw [entry]
        exact sound.told a among
      · intro r member
        obtain ⟨a, among, rfl⟩ := List.mem_map.mp member
        change (swept a).entry.event.date.OnClock
        rw [entry]
        exact sound.dated a among
      · intro r member sent
        obtain ⟨a, among, rfl⟩ := List.mem_map.mp member
        split at sent
        · cases sent
        · rename_i kept
          rw [if_neg kept]
          exact sound.sent a among sent

theorem sound_empty : Sound told Desk.empty where
  keys := List.nodup_nil
  tidy _ member := absurd member List.not_mem_nil
  told _ member := absurd member List.not_mem_nil
  dated _ member := absurd member List.not_mem_nil
  sent _ member := absurd member List.not_mem_nil

theorem Reachable.sound {p : Pool (.family services) Desk Unit} (reached : Reachable told p) :
    Sound told p.state := by
  have orderly : Pool.Orderly (discipline told) p := by
    refine Pool.Reachable.orderly ?_ ?_ sound_empty reached
    · rintro j w (plan | plan) _
      · exact (meets_tick plan w).on
      · exact (Publish.meets_batch grants_told plan w).on
    · intro w v sound sweeps
      refine ⟨sound.sweep sweeps, ?_⟩
      change w.bus.log <+: v.bus.log
      exact sweeps.becomes.2 ▸ List.prefix_rfl
  exact orderly.1

theorem Sound.becomes_of_serves (sound : Sound told w) {c : (Interface.family services).Call}
    {reply : (Interface.family services).Reply c} {v : Desk} (served : serves told c w reply v) :
    w.box.Becomes v.box := by
  obtain ⟨role, c⟩ := c
  cases role with
  | scanner =>
      cases c with
      | outbox c => exact (sound.becomes served).1
      | chain c =>
          obtain ⟨-, rfl⟩ := served
          exact .refl _
      | _ =>
          obtain rfl : v = w := served
          exact .refl _
  | publisher =>
      cases c with
      | outbox c => exact (sound.becomes served).1
      | now =>
          obtain rfl : v = w := served
          exact .refl _
      | send key payload => rcases served with ⟨-, rfl⟩ | ⟨fault, -, rfl | rfl⟩ <;> exact .refl _

theorem Sound.becomes_of_step {p q : Pool (.family services) Desk Unit} (sound : Sound told p.state)
    (step : Works.Step told p q) : p.state.box.Becomes q.state.box := by
  cases step with
  | start j job => exact .refl _
  | work r served => exact sound.becomes_of_serves served
  | drop j => exact .refl _
  | environment sweeps => exact sweeps.becomes.1

/-- However long it goes on, a row stays what it is, and for good once it is sent. -/
theorem Reachable.exists_of_mem {p q : Pool (.family services) Desk Unit}
    (reached : Reachable told p) (steps : Relation.ReflTransGen (Works.Step told) p q)
    {r : Outbox.Row} (member : r ∈ p.state.box.rows) :
    ∃ r' ∈ q.state.box.rows, r'.event = r.event ∧ r'.createdAt = r.createdAt ∧
      (r.status = .sent → r' = r) := by
  have later : Reachable told q ∧ ∃ r' ∈ q.state.box.rows, r'.event = r.event ∧
      r'.createdAt = r.createdAt ∧ (r.status = .sent → r' = r) := by
    induction steps with
    | refl => exact ⟨reached, r, member, rfl, rfl, fun _ => rfl⟩
    | tail _ step ih =>
        obtain ⟨between, a, among, event, time, same⟩ := ih
        obtain ⟨b, b_mem, becomes⟩ :=
          (between.sound.becomes_of_step step).exists_of_mem among
        refine ⟨between.step step, b, b_mem, becomes.event_eq.trans event,
          becomes.createdAt_eq.trans time, fun sent => ?_⟩
        obtain rfl := same sent
        exact becomes.eq_of_sent sent
  exact later.2

/-- Keys are single; a row has a time since when it is held if and only if it is held; the bus has
a message that reads as the event of each row that is sent. Recording an event again leaves the
delivery of every row as it is, each step makes of the rows what it may, and no row is ever lost or
comes back from being sent. -/
theorem outbox_lifecycle {p : Pool (.family services) Desk Unit} (reached : Reachable told p) :
    (p.state.box.events.map VaultEvent.key).Nodup ∧
      (∀ r ∈ p.state.box.rows, r.claimedAt.isSome = true ↔ r.status = .processing) ∧
      (∀ r ∈ p.state.box.rows, r.status = .sent → ∃ d ∈ p.state.bus.log, d.key = r.event.wallet ∧
        ∃ m, Message.ofBytes d.payload = .ok m ∧ m.event = .ok r.event) ∧
      (∀ e, (∃ r ∈ p.state.box.rows, r.event.key = e.key) →
        (p.state.box.record e).rows.map Outbox.Row.delivery =
          p.state.box.rows.map Outbox.Row.delivery) ∧
      (∀ q, Works.Step told p q → p.state.box.Becomes q.state.box) ∧
      ∀ q, Relation.ReflTransGen (Works.Step told) p q → ∀ r ∈ p.state.box.rows,
        ∃ r' ∈ q.state.box.rows, r'.event = r.event ∧ r'.createdAt = r.createdAt ∧
          (r.status = .sent → r' = r) := by
  have sound := reached.sound
  refine ⟨sound.keys, sound.tidy, ?_, fun _ known => Outbox.map_delivery_record known,
    fun _ step => sound.becomes_of_step step, fun _ steps _ member =>
      reached.exists_of_mem steps member⟩
  intro r member sent
  obtain ⟨d, among, key, t, payload⟩ := sound.sent r member sent
  refine ⟨d, among, key, .ofEvent r.event t.shown, ?_, Message.event_ofEvent _ _⟩
  rw [payload, Message.ofBytes_toBytes, Message.shown_ofEvent (sound.dated r member)]

end

/-- The deposit that a scanner finds in the block of the sample chain. -/
def sampleFound : VaultEvent where
  txHash := "0x0000000000000000000000000000000000000000000000000000000000000007"
  logIndex := 0
  blockNumber := 2
  date := .ofUnixMillis 1700000024000
  wallet := "0x0000000000000000000000000000000000000011"
  amount := "0"
  fromAsset := "LBTC"
  toAsset := "LBTCv"
  payload := .deposit
    { nonce := "1"
      receiver := "0x0000000000000000000000000000000000000011"
      depositAsset := "0x8236a87084f8B84306f72007F36F2618A5634494"
      depositAmount := "0"
      shareAmount := "0"
      depositTimestamp := "0"
      shareLockPeriod := "0" }

def sampleDesk (status : OutboxStatus) (claimedAt : Option Moment) (log : List Delivery) : Desk :=
  ⟨⟨[⟨⟨sampleFound, status, Outbox.recordedAt 0⟩, claimedAt⟩]⟩, ⟨log, 0, 0⟩⟩

def sampleDelivery (offset : Nat) : Delivery :=
  ⟨offset, sampleFound.wallet, (Message.ofEvent sampleFound (.ofUnixMillis 0)).toBytes⟩

theorem tells_calmly (survey : Scan.Survey) (sc : Scan.Scanner) (head : UInt64) (c : Chain.Call)
    (s : Scan.Shared) : Chain.Tells c (survey.calmly sc head (.chain c) s).1 := by
  cases c with
  | blockTime number => exact survey.ledger.tells_answer (.blockTime number)
  | _ => trivial

def sampleScan : Except Scan.Fault Scan.Summary × Scan.Shared :=
  (Scan.tick (Scan.sampleSurvey.plan Scan.sampleCareful)).run.interpret
    (Scan.sampleSurvey.calmly Scan.sampleCareful 3) (.start Scan.sampleList 1)

theorem runs_sample_tick :
    Program.Runs (scanServes fun _ => sampleFound)
      (Scan.tick (Scan.sampleSurvey.plan Scan.sampleCareful)).run Desk.empty sampleScan.1
      (sampleDesk .unsent none []) := by
  let view (s : Scan.Shared) : Desk := ⟨s.box, .empty⟩
  have found : ((Scan.tick (Scan.sampleSurvey.plan Scan.sampleCareful)).run.calls
        (Scan.sampleSurvey.calmly Scan.sampleCareful 3) (.start Scan.sampleList 1)).filterMap
          Scan.Call.recorded? = [sampleFound] ∧
      sampleScan.2.box.rows = (sampleDesk .unsent none []).box.rows := by decide +kernel
  have of_rows (s : Scan.Shared) (same : s.box.rows = (sampleDesk .unsent none []).box.rows) :
      view s = sampleDesk .unsent none [] := by
    change (⟨⟨s.box.rows⟩, .empty⟩ : Desk) = _
    rw [same]
    rfl
  rw [← of_rows sampleScan.2 found.2]
  refine Program.runs_interpret_of_calls view _ (.start Scan.sampleList 1) ?_
  intro c called s
  cases c with
  | outbox c =>
      refine ⟨?_, 0, _, .inl rfl, rfl⟩
      rintro e rfl
      have among := (List.mem_filterMap (f := Scan.Call.recorded?)).mpr ⟨_, called, rfl⟩
      rw [found.1] at among
      exact (List.mem_singleton.mp among).symm
  | chain c =>
      refine ⟨tells_calmly Scan.sampleSurvey Scan.sampleCareful 3 c s, ?_⟩
      cases c <;> rfl
  | _ => rfl

section

variable {told : EventKey → VaultEvent} {c : Outbox.Call}

theorem outboxServes_of_other (other : ∀ e, c ≠ .record e) (now : Moment) (w : Desk) :
    outboxServes told c w (Outbox.answer now c w.box).1
      { w with box := (Outbox.answer now c w.box).2 } :=
  ⟨fun e same => absurd same (other e), now, _, .inl rfl, rfl⟩

theorem outboxServes_of_fault (other : ∀ e, c ≠ .record e) (fault : StoreFault) (w : Desk) :
    outboxServes told c w (.error fault) w :=
  ⟨fun e same => absurd same (other e), 0, _, .inr ⟨fault, rfl, .inl rfl⟩, rfl⟩

end

theorem serves_sample_claim (now : Moment) (log : List Delivery) :
    outboxServes (fun _ => sampleFound) (.claim 1) (sampleDesk .unsent none log)
      (.ok [⟨sampleFound, .processing, Outbox.recordedAt 0⟩])
      (sampleDesk .processing (some now) log) := by
  have claimed : (sampleDesk .unsent none log).box.claimed 1 =
      [⟨sampleFound, .unsent, Outbox.recordedAt 0⟩] := by
    have fits : (sampleDesk .unsent none log).box.rows.filter
        (sampleDesk .unsent none log).box.isClaimable = (sampleDesk .unsent none log).box.rows := rfl
    rw [Outbox.claimed, fits, OutboxEvent.inOrder]
    exact congrArg (List.take 1) (List.mergeSort_singleton _)
  have answered : Outbox.answer now (.claim 1) (sampleDesk .unsent none log).box =
      (.ok [⟨sampleFound, .processing, Outbox.recordedAt 0⟩],
        (sampleDesk .processing (some now) log).box) := by
    change ((sampleDesk .unsent none log).box.claim 1 now).map Except.ok id = _
    rw [Outbox.claim, claimed]
    rfl
  have served := @outboxServes_of_other (fun _ => sampleFound) (.claim 1) (by simp) now
    (sampleDesk .unsent none log)
  rw [answered] at served
  exact served

/-- A publisher holds the row for so long that another takes it over. That one sends the row, but
can neither mark it nor put it back. Then the first one sends the row as well, and marks it. -/
theorem advances_sample_batches :
    ∃ left,
      Advances (publishServes fun _ => sampleFound) (Publish.batch ⟨1, 0⟩).run
        (sampleDesk .unsent none []) left (sampleDesk .processing (some 0) []) ∧
      Advances (publishServes fun _ => sampleFound) (Publish.batch ⟨1, 5⟩).run
        (sampleDesk .processing (some 0) []) (.done (.error (.database .timedOut)))
        (sampleDesk .processing (some (.ofMillis 6)) [sampleDelivery 0]) ∧
      Advances (publishServes fun _ => sampleFound) left
        (sampleDesk .processing (some (.ofMillis 6)) [sampleDelivery 0]) (.done (.ok ⟨0, 1, 1, 0, 0⟩))
        (sampleDesk .sent none [sampleDelivery 0, sampleDelivery 1]) := by
  have swept : outboxServes (fun _ => sampleFound) (.reclaim 0) (sampleDesk .unsent none []) (.ok 0)
      (sampleDesk .unsent none []) :=
    outboxServes_of_other (by simp) 0 (sampleDesk .unsent none [])
  have reclaimed : outboxServes (fun _ => sampleFound) (.reclaim 5)
      (sampleDesk .processing (some 0) []) (.ok 1) (sampleDesk .unsent none []) :=
    outboxServes_of_other (by simp) (.ofMillis 6) (sampleDesk .processing (some 0) [])
  have marked : outboxServes (fun _ => sampleFound) (.markSent sampleFound.ref)
      (sampleDesk .processing (some (.ofMillis 6)) [sampleDelivery 0, sampleDelivery 1]) (.ok ())
      (sampleDesk .sent none [sampleDelivery 0, sampleDelivery 1]) :=
    outboxServes_of_other (by simp) 0
      (sampleDesk .processing (some (.ofMillis 6)) [sampleDelivery 0, sampleDelivery 1])
  have fails {c : Outbox.Call} (other : ∀ e, c ≠ .record e) :=
    @outboxServes_of_fault (fun _ => sampleFound) c other (.database .timedOut)
      (sampleDesk .processing (some (.ofMillis 6)) [sampleDelivery 0])
  refine ⟨_, .call swept (.call (serves_sample_claim 0 []) .refl), ?_, ?_⟩
  · refine .call reclaimed (.call (serves_sample_claim (.ofMillis 6) []) ?_)
    refine .call (r := Instant.ofUnixMillis 0) rfl (.call (.inl ⟨rfl, rfl⟩) ?_)
    refine .call (fails (c := .markSent sampleFound.ref) (by simp)) ?_
    exact .call (fails (c := .markFailed sampleFound.ref) (by simp)) .refl
  · refine .call (r := Instant.ofUnixMillis 0) rfl (.call (.inl ⟨rfl, rfl⟩) ?_)
    exact .call marked .refl

/-- The row comes to be sent while it is the other one that holds it, and the bus tells it twice. -/
theorem outbox_lifecycle_of_late_mark :
    (∃ running, Reachable (fun _ => sampleFound)
      ⟨sampleDesk .sent none [sampleDelivery 0, sampleDelivery 1], running⟩) ∧
    ∃ d ∈ [sampleDelivery 0, sampleDelivery 1], d.key = sampleFound.wallet ∧
      ∃ m, Message.ofBytes d.payload = .ok m ∧ m.event = .ok sampleFound := by
  have started : Reachable (fun _ => sampleFound) ⟨Desk.empty,
      [(Scan.tick (Scan.sampleSurvey.plan Scan.sampleCareful)).run.on (I := services) .scanner]⟩ :=
    Pool.Reachable.start.step (.start _ (.tick _))
  have recorded := started.of_advances [] runs_sample_tick.advances.on
  obtain ⟨left, holding, takeover, late⟩ := advances_sample_batches
  have held := (recorded.step (.start _ (.batch ⟨1, 0⟩))).of_advances [] holding.on
  have taken := (held.step (.start _ (.batch ⟨1, 5⟩))).of_advances [] takeover.on
  have sent := taken.of_advances [_] late.on
  exact ⟨⟨_, sent⟩, (outbox_lifecycle sent).2.2.1 _ List.mem_cons_self rfl⟩

end Lifecycle

end VaultTransfers
