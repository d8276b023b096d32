import VaultTransfers.Proofs.Consume.Recovery
import VaultTransfers.Proofs.Orders.Closing
import VaultTransfers.Proofs.Orders.Direct

/-!
The pipeline as a whole. Whatever has failed on the way, once everything final is
scanned, everything recorded is sent and everything sent is consumed, the orders
are those that the events of the chain make when they are applied directly. And
what is sent is consumed: a consumer reads the bus to its end if no call on the
bus fails and it has time for the failures of the table of orders.
-/

namespace VaultTransfers.Session

open Materialize (Arrival History Mirrors arrivals direct ofWallet)
open Program (Runs)
open Relation (ReflTransGen)

def safeBlock (w : World) : UInt64 :=
  (plan w).safeBlock w.ledger.latest

/-- What every step keeps: the outbox has the chain's events as far as they are scanned, the bus
tells those of the outbox, and the orders have what was read of the bus. -/
structure OnCourse (scene : Scene) (time : Instant) (w : World) : Prop where
  steady : Steady scene w
  recorded : Scan.Recorded scene.source scene.origin (safeBlock w) (site w)
  passedOn : ∃ told as, (desk w).Streams w.outbox.entries told ∧
    Consume.Consumed time told w.identities as (reader w)

namespace Scene

/-- The wallets that are watched on the chain. -/
def wallets (scene : Scene) : List String :=
  (scene.watchList.entries.filter (·.chainId = scene.settings.chainId)).map (·.wallet)

/-- Applies a wallet's events up to a block one after the other to no orders; all of them are
published at one time. -/
def directly (scene : Scene) (time : Instant) (last : UInt64) (wallet : String) :
    List (Except Materialize.Fault Materialize.Applied) × OrderTable :=
  direct time (eventsOf wallet (scene.source.events scene.origin last))

theorem nodup_register {l : WatchList} (distinct : l.entries.Nodup) (w : Watched) :
    (l.register w).entries.Nodup := by
  unfold WatchList.register
  split
  · exact distinct
  · rename_i new
    refine List.nodup_append.mpr ⟨distinct, by simp, ?_⟩
    intro v known u itself same
    rw [List.mem_singleton.mp itself] at same
    exact new (List.contains_iff_mem.mpr (same ▸ known))

theorem nodup_watchList (scene : Scene) : scene.watchList.entries.Nodup := by
  have registered (watched : List Watched) : ∀ l : WatchList, l.entries.Nodup →
      (watched.foldl (fun l w => l.register w) l).entries.Nodup := by
    induction watched with
    | nil => exact fun _ distinct => distinct
    | cons w watched ih => exact fun l distinct => ih _ (nodup_register distinct w)
  exact registered scene.watched .empty .nil

theorem nodup_wallets (scene : Scene) : scene.wallets.Nodup := by
  refine (scene.nodup_watchList.sublist List.filter_sublist).map_on ?_
  intro v v_mem u u_mem same
  have here : v.chainId = scene.settings.chainId := by simpa using (List.mem_filter.mp v_mem).2
  have there : u.chainId = scene.settings.chainId := by simpa using (List.mem_filter.mp u_mem).2
  exact congrArg₂ Watched.mk same (here.trans there.symm)

theorem mem_wallets (scene : Scene) {wallet : String}
    (watched : scene.source.watched.contains ⟨wallet, scene.source.plan.chainId⟩ = true) :
    wallet ∈ scene.wallets := by
  refine List.mem_map.mpr ⟨⟨wallet, scene.settings.chainId⟩, List.mem_filter.mpr ⟨?_, by simp⟩, rfl⟩
  exact List.contains_iff_mem.mp watched

end Scene

section

variable {scene : Scene} {time : Instant} {w t : World}

theorem Steady.plan_eq (steady : Steady scene w) : plan w = scene.source.plan :=
  congrArg Scan.Plan.ofSettings steady.settings

theorem Steady.safeBlock_eq (steady : Steady scene w) :
    safeBlock w = scene.source.plan.safeBlock w.ledger.latest := by
  rw [safeBlock, steady.plan_eq]

theorem Steady.safeBlock_le (steady : Steady scene w) (steady' : Steady scene t)
    (later : w.ledger.latest ≤ t.ledger.latest) : safeBlock w ≤ safeBlock t := by
  rw [steady.safeBlock_eq, steady'.safeBlock_eq]
  exact Scan.Plan.safeBlock_mono _ later

theorem onCourse_world (scene : Scene) (time : Instant) : OnCourse scene time scene.world where
  steady := ⟨rfl, rfl, rfl, List.not_mem_nil⟩
  recorded := Scan.recorded_start scene.source scene.origin (safeBlock scene.world) _
  passedOn := ⟨[], [], Publish.Desk.streams_empty, Consume.consumed_empty time _⟩

/-- What a scanner works on is kept, but for how far the rows have been dealt with. -/
theorem recorded_of_kept
    (recorded : Scan.Recorded scene.source scene.origin (safeBlock w) (site w))
    (later : safeBlock w ≤ safeBlock t) (watchList : t.watchList = w.watchList)
    (remembered : t.remembered = w.remembered) (cursor : t.cursor = w.cursor)
    (entries : t.outbox.entries = w.outbox.entries) :
    Scan.Recorded scene.source scene.origin (safeBlock t) (site t) := by
  refine (recorded.mono later).of_entries ⟨watchList.trans recorded.ready.watched, ?_⟩ cursor entries
  intro v member
  rw [site, remembered] at member
  exact recorded.ready.remembered v member

theorem OnCourse.disturb (onCourse : OnCourse scene time w) (disturbs : Disturbs w t) :
    OnCourse scene time t := by
  obtain ⟨steady, recorded, passedOn⟩ := onCourse
  have steady' := steady.of_disturbs disturbs
  have later := steady.safeBlock_le steady' disturbs.latest_le
  obtain ⟨latest, readings, failingKeys, traps, -, -⟩ := disturbs
  exact ⟨steady', (recorded.mono later).of_latest latest, passedOn⟩

theorem OnCourse.tick (onCourse : OnCourse scene time w) {r : Except Scan.Fault Scan.Summary}
    (run : Runs scans (Scan.tick (plan w)).run w r t) : OnCourse scene time t := by
  obtain ⟨steady, recorded, told, as, streams, consumed⟩ := onCourse
  obtain ⟨steady', rest, run'⟩ := runs_scans steady run
  rw [steady.plan_eq] at run'
  rw [steady.safeBlock_eq] at recorded
  obtain ⟨recorded', grows⟩ := Scan.ends_tick recorded r (site t) run'
  obtain ⟨bus, rest'⟩ := Prod.mk.inj rest
  obtain ⟨orders, identities⟩ := Prod.mk.inj rest'
  refine ⟨steady', steady'.safeBlock_eq ▸ recorded', told, as, ?_, ?_⟩
  · have streams' := streams.of_extends grows.box recorded'.ordered
    rw [desk, bus]
    exact streams'
  · rw [reader, bus, orders, identities]
    exact consumed

theorem OnCourse.publish (onCourse : OnCourse scene time w) {r : Except StoreFault Publish.Summary}
    (run : Runs (served (I := Publish.interface) publisher)
      (Publish.batch (.ofSettings w.settings)).run w r t) : OnCourse scene time t := by
  obtain ⟨steady, recorded, told, as, streams, consumed⟩ := onCourse
  obtain ⟨steady', later, rest, run'⟩ := runs_publisher steady run
  obtain ⟨more, streams'⟩ := Publish.ends_batch _ streams r (desk t) run'
  simp only [unpublished, Prod.mk.injEq] at rest
  obtain ⟨watchList, remembered, cursor, orders, identities, position⟩ := rest
  have entries : t.outbox.entries = w.outbox.entries := streams'.entries
  refine ⟨steady', ?_, told ++ more, as, ?_, ?_⟩
  · exact recorded_of_kept recorded (steady.safeBlock_le steady' later) watchList remembered cursor
      entries
  · rw [entries]
    exact streams'
  · rw [identities]
    exact (consumed.append more).of_same position orders

theorem OnCourse.consume (onCourse : OnCourse scene time w) {r : Consume.Turn}
    (run : Runs (served (I := Consume.interface) consumer) (Consume.turn (freshId w).1)
      (freshId w).2 r t) : OnCourse scene time t := by
  obtain ⟨steady, recorded, told, as, streams, consumed⟩ := onCourse
  have issued : Steady scene (freshId w).2 := steady.of_same rfl rfl
  obtain ⟨steady', later, rest, run'⟩ := runs_consumer issued run
  simp only [unconsumed, Prod.mk.injEq] at rest
  obtain ⟨watchList, remembered, cursor, outbox, identities⟩ := rest
  obtain ⟨log, as', consumed'⟩ := Consume.ends_turn consumed streams.inOrder recorded.nodup_keys
    recorded.pairwise recorded.onClock streams.log streams.numbered r (reader t) run'
  refine ⟨steady', ?_, told, as', ?_, ?_⟩
  · exact recorded_of_kept recorded (steady.safeBlock_le steady' later) watchList remembered cursor
      (congrArg Outbox.entries outbox)
  · rw [desk, outbox]
    exact streams.of_log log
  · rw [identities]
    exact consumed'

theorem OnCourse.step (onCourse : OnCourse scene time w) (step : Step w t) :
    OnCourse scene time t := by
  cases step with
  | disturb disturbs => exact onCourse.disturb disturbs
  | tick run => exact onCourse.tick run
  | publish run => exact onCourse.publish run
  | consume run => exact onCourse.consume run

theorem onCourse_of_steps (time : Instant) (steps : ReflTransGen Step scene.world w) :
    OnCourse scene time w := by
  induction steps with
  | refl => exact onCourse_world scene time
  | tail _ step ih => exact ih.step step

theorem OnCourse.events_eq (onCourse : OnCourse scene time w)
    (scanned : w.cursor.block = safeBlock w) :
    w.outbox.events = scene.source.events scene.origin (safeBlock w) := by
  have behind : scene.source.events scene.origin w.cursor.block <+: w.outbox.events :=
    onCourse.recorded.behind
  rw [scanned] at behind
  exact onCourse.recorded.within.eq_of_length_le behind.length_le

/-- When all is scanned, sent and consumed, the orders are those of a history that has of each
wallet the messages of its events. -/
theorem OnCourse.history (onCourse : OnCourse scene time w)
    (scanned : w.cursor.block = safeBlock w) (sent : ∀ r ∈ w.outbox.rows, r.status = .sent)
    (consumed : w.bus.unread = 0) :
    ∃ as, History as ∧ Mirrors w.orders as ∧ ∀ wallet, (ofWallet wallet as).map (·.message) =
      (eventsOf wallet (scene.source.events scene.origin (safeBlock w))).map fun e =>
        Message.ofEvent e time := by
  have events := onCourse.events_eq scanned
  obtain ⟨steady, recorded, told, as, streams, reading⟩ := onCourse
  have every : ∀ e ∈ w.outbox.events, e ∈ heard told := by
    intro e member
    obtain ⟨r, among, rfl⟩ := List.mem_map.mp member
    exact streams.sent r among (sent r among)
  have read : told.take w.bus.position = told := by
    have whole : w.bus.log.length = told.length := streams.log.length_eq
    have unread : w.bus.log.length - w.bus.position = 0 := consumed
    exact List.take_of_length_le (by omega)
  have messages : as.map (·.message) = (heard told).map fun e => Message.ofEvent e time := by
    have position := reading.messages
    rw [reader, read] at position
    exact position
  refine ⟨as, reading.history, reading.mirrors, ?_⟩
  intro wallet
  have distinct : w.outbox.events.Nodup := recorded.nodup_keys.of_map _
  have heard : eventsOf wallet (heard told) = eventsOf wallet w.outbox.events :=
    streams.inOrder.eventsOf_eq distinct every wallet
  rw [Materialize.map_message_ofWallet messages, heard, events]

theorem Scene.mem_wallets_of_history (scene : Scene) {as : List Arrival} {last : UInt64}
    (messages : ∀ wallet, (ofWallet wallet as).map (·.message) =
      (eventsOf wallet (scene.source.events scene.origin last)).map fun e => Message.ofEvent e time) :
    ∀ a ∈ as, a.message.wallet ∈ scene.wallets := by
  intro a member
  have among : a.message ∈ (ofWallet a.message.wallet as).map (·.message) :=
    List.mem_map_of_mem (Materialize.mem_ofWallet.mpr ⟨member, rfl⟩)
  rw [messages] at among
  obtain ⟨e, e_mem, message⟩ := List.mem_map.mp among
  rw [← message]
  exact scene.mem_wallets (Scan.Source.watched_of_mem_events (mem_eventsOf.mp e_mem).1)

/-- What is left to read is waited for, if its messages can be applied. -/
theorem OnCourse.awaits (onCourse : OnCourse scene time w)
    (sound : ∀ e ∈ w.outbox.events, (Message.ofEvent e time).IsSound) :
    ∃ as, as.length = w.bus.unread ∧ Consume.Awaits as w.orders (station w) := by
  obtain ⟨-, recorded, told, heeded, streams, consumed⟩ := onCourse
  have sound' : ∀ e ∈ told, (Message.ofEvent e time).IsSound := fun e member =>
    sound e (streams.inOrder.mem (mem_heard member))
  exact consumed.awaits streams.inOrder recorded.nodup_keys recorded.pairwise recorded.onClock
    sound' streams.log streams.numbered w.rewinds (failures w.traps)

/-- What a consumer keeps while only the table of orders fails. -/
structure Keeps (scene : Scene) (w t : World) : Prop where
  reliable : Reliable t
  steady : Steady scene t
  ledger : t.ledger = w.ledger
  cursor : t.cursor = w.cursor
  outbox : t.outbox = w.outbox

theorem Keeps.serves {u : World} (keeps : Keeps scene w u) (c : Consume.Call) :
    Keeps scene w (consumer c u).2 ∧
      Consume.Station.serves c (station u) (consumer c u).1 (station (consumer c u).2) := by
  obtain ⟨reliable, steady, ledger, cursor, outbox⟩ := keeps
  obtain ⟨reliable', served⟩ := serves_consumer c u reliable
  obtain ⟨steady', ledger', rest, -⟩ := consumer_answers steady (Prod.eta (consumer c u)).symm
  simp only [unconsumed, Prod.mk.injEq] at rest
  obtain ⟨-, -, cursor', outbox', -⟩ := rest
  exact ⟨⟨reliable', steady', ledger'.trans ledger, cursor'.trans cursor, outbox'.trans outbox⟩,
    served⟩

theorem Keeps.freshId {u : World} (keeps : Keeps scene w u) :
    Keeps scene w (freshId u).2 ∧ (freshId u).1 ∉ (station u).issued ∧
      station (freshId u).2 = (station u).named (freshId u).1 :=
  ⟨⟨keeps.reliable, keeps.steady.of_same rfl rfl, keeps.ledger, keeps.cursor, keeps.outbox⟩,
    station_freshId u⟩

theorem Keeps.safeBlock_eq (keeps : Keeps scene w t) (steady : Steady scene w) :
    safeBlock t = safeBlock w := by
  rw [keeps.steady.safeBlock_eq, steady.safeBlock_eq, keeps.ledger]

/-- While only the table of orders fails, and there is a pause for every time that it does, a
consumer reads the bus to its end. -/
theorem OnCourse.read_to_end (onCourse : OnCourse scene time w) (reliable : Reliable w)
    (sound : ∀ e ∈ w.outbox.events, (Message.ofEvent e time).IsSound) {duration : Nat}
    (patient : failures w.traps ≤ pausesIn w.retryDelay duration) :
    Keeps scene w (w.after (consumeFor duration)) ∧
      (w.after (consumeFor duration)).bus.unread = 0 := by
  obtain ⟨as, count, awaits⟩ := onCourse.awaits sound
  have enough : as.length + failures w.traps < w.bus.unread + pausesIn w.retryDelay duration + 1 := by
    omega
  have start : Keeps scene w w := ⟨reliable, onCourse.steady, rfl, rfl, rfl⟩
  have rows : (station w).orders = w.orders.renamed (Equiv.refl OrderId) :=
    (OrderTable.renamed_id w.orders).symm
  obtain ⟨t, ran, keeps, recovers⟩ := Consume.run_of_awaits
    (fun c u (keeps : Keeps scene w u) => keeps.serves c) (fun u keeps => keeps.freshId)
    start awaits rows enough patient
  have ended : w.after (consumeFor duration) = t := congrArg Prod.snd ran
  have bus : t.bus = Consume.drained w.bus := recovers.bus
  rw [ended, bus]
  exact ⟨keeps, Nat.sub_self w.bus.log.length⟩

/-- But for their identities and their order, the orders are those of the events of the final
blocks; every event has its time, and none is refused. -/
theorem orders_eq_direct (steps : ReflTransGen Step scene.world w)
    (scanned : w.cursor.block = safeBlock w) (sent : ∀ r ∈ w.outbox.rows, r.status = .sent)
    (consumed : w.bus.unread = 0) (time : Instant) :
    scene.source.Dated scene.origin (safeBlock w) ∧
      (∀ wallet, ∃ answers : List Materialize.Applied,
        (scene.directly time (safeBlock w) wallet).1 = answers.map .ok) ∧
      (w.orders.orders.map Order.anonymous).Perm
        (scene.wallets.flatMap fun wallet =>
          (scene.directly time (safeBlock w) wallet).2.orders.map Order.anonymous) := by
  have onCourse := onCourse_of_steps time steps
  obtain ⟨as, history, mirrors, messages⟩ := onCourse.history scanned sent consumed
  have rows (wallet : String) : ∃ answers : List Materialize.Applied,
      (scene.directly time (safeBlock w) wallet).1 = answers.map .ok ∧
        (scene.directly time (safeBlock w) wallet).2.orders.map Order.anonymous =
          (Materialize.reconstruct false (ofWallet wallet as)).map Order.anonymous :=
    Materialize.direct_of_history (history.ofWallet wallet) (messages wallet)
      fun e member => (mem_eventsOf.mp member).2
  refine ⟨?_, ?_, ?_⟩
  · rw [← scanned]
    exact onCourse.recorded.dated
  · intro wallet
    obtain ⟨answers, succeeded, -⟩ := rows wallet
    exact ⟨answers, succeeded⟩
  · have watched := scene.mem_wallets_of_history messages
    have table := (mirrors.perm_flatMap scene.nodup_wallets watched).map Order.anonymous
    have same : (scene.wallets.flatMap fun wallet =>
        (Materialize.reconstruct false (ofWallet wallet as)).map Order.anonymous) =
          scene.wallets.flatMap fun wallet =>
            (scene.directly time (safeBlock w) wallet).2.orders.map Order.anonymous := by
      refine List.flatMap_congr ?_
      intro wallet _
      obtain ⟨-, -, orders⟩ := rows wallet
      exact orders.symm
    rw [List.map_flatMap, same] at table
    exact table

end

/-- A log about a user's offer of the vault's shares; its data are words of one digit to the base
of 256. -/
def sampleTrade (kind : EventKind) (words : List UInt8) (block : UInt64) : Log where
  address := Asset.atomicQueue
  topics := [kind.topic, .ofNat 0x11, ⟨Asset.lbtcv.address.bits.zeroExtend 256⟩,
    ⟨Asset.lbtc.address.bits.zeroExtend 256⟩]
  data := words.flatMap fun digit => List.replicate 31 0 ++ [digit]
  blockNumber := block
  txHash := .ofNat block.toNat
  logIndex := 0
  removed := false

/-- A wallet requests a withdrawal, revises the request and is paid; another one deposits between. -/
def sampleScene : Scene where
  settings := Scan.Walk.sampleSettings
  retryDelay := 1
  ledger := { Ledger.ofLatest 3 with
    logs := [sampleTrade .withdrawalRequested [100, 0, 1, 0] 2,
      sampleTrade .withdrawalRequested [200, 0, 1, 0] 3, Scan.sampleDeposit 0x12 4,
      sampleTrade .withdrawalCompleted [200, 2, 0] 5] }
  origin := 1
  watched := [⟨(Address.ofNat 0x11).checksummed, 1⟩, ⟨(Address.ofNat 0x12).checksummed, 1⟩]
  positions := by decide +kernel
  keys := by decide +kernel

/-- The first event cannot be recorded, and the messages of its wallet are refused. -/
def sampleTroubled : World :=
  { sampleScene.world with
    failingKeys := [(Address.ofNat 0x11).checksummed]
    traps := [⟨.record, 0, 1, .store (.database .timedOut)⟩] }

def sampleRefused : World :=
  (sampleTroubled.after (scanFor 1 1)).after (publishFor 1 0)

def sampleCalmed : World :=
  { sampleRefused with failingKeys := [], traps := [] }.after (publishFor 1 0)

/-- The head of the chain moves on, and what is final then is scanned and sent. -/
def World.grown (latest : UInt64) (w : World) : World :=
  ({ w with ledger := { w.ledger with latest := latest } }.after (scanFor 1 0)).after (publishFor 1 0)

theorem steps_grown {latest : UInt64} {w : World} (later : w.ledger.latest ≤ latest) :
    ReflTransGen Step w (w.grown latest) := by
  have grown : Step w { w with ledger := { w.ledger with latest := latest } } :=
    .disturb (.mk latest w.readings w.failingKeys w.traps later fun _ => .inl)
  exact .head grown ((steps_scanFor 1 0 _).trans (steps_publishFor 1 0 _))

def sampleSent : World :=
  ((sampleCalmed.grown 4).grown 5).grown 6

/-- The first order that a consumer writes is not written at once. -/
def World.hindered (w : World) : World :=
  { w with traps := [⟨.upsertOrder, 0, 1, .store (.database .timedOut)⟩] }

theorem step_hindered (w : World) : Step w w.hindered :=
  .disturb (.of_faults w _ (by simp))

theorem reliable_hindered (w : World) : Reliable w.hindered := by
  intro c
  cases c <;> simp [World.hindered, busOperation]

theorem OnCourse.read_to_end_of_hindered {scene : Scene} {time : Instant} {w : World}
    (onCourse : OnCourse scene time w)
    (sound : ∀ e ∈ w.outbox.events, (Message.ofEvent e time).IsSound) {duration : Nat}
    (patient : 1 ≤ pausesIn w.retryDelay duration) :
    Keeps scene w (w.hindered.after (consumeFor duration)) ∧
      (w.hindered.after (consumeFor duration)).bus.unread = 0 := by
  obtain ⟨keeps, read⟩ :=
    (onCourse.step (step_hindered w)).read_to_end (reliable_hindered w) sound patient
  exact ⟨⟨keeps.reliable, keeps.steady, keeps.ledger, keeps.cursor, keeps.outbox⟩, read⟩

def sampleEnd : World :=
  sampleSent.hindered.after (consumeFor 1)

/-- Whose an order is, of which amount and how far. -/
def outline (o : Order) : String × String × OrderStatus :=
  (o.wallet, o.amount, o.status)

def sampleOutline : List (String × String × OrderStatus) :=
  [((Address.ofNat 0x11).checksummed, "0.000002", .completed),
    ((Address.ofNat 0x12).checksummed, "0", .completed)]

/-- All that is final has been scanned and sent, and every message of it can be applied; found by
running the session. -/
theorem sampleSent_ready :
    (sampleCalmed.ledger.latest ≤ 4 ∧ (sampleCalmed.grown 4).ledger.latest ≤ 5 ∧
        ((sampleCalmed.grown 4).grown 5).ledger.latest ≤ 6) ∧
      (sampleSent.cursor.block = safeBlock sampleSent ∧
        ∀ r ∈ sampleSent.outbox.rows, r.status = .sent) ∧
      1 ≤ pausesIn sampleSent.retryDelay 1 ∧
      (∀ e ∈ sampleSent.outbox.events, (Message.ofEvent e (.ofUnixMillis 0)).isApplicable = true) ∧
      (sampleScene.wallets.flatMap fun wallet =>
        (direct (.ofUnixMillis 0) (eventsOf wallet sampleSent.outbox.events)).2.orders.map outline) =
          sampleOutline := by
  decide +kernel

theorem steps_sampleSent : ReflTransGen Step sampleScene.world sampleSent := by
  obtain ⟨⟨four, five, six⟩, -⟩ := sampleSent_ready
  have troubled : Step sampleScene.world sampleTroubled := .disturb (.of_faults _ _ (by simp))
  have refused : ReflTransGen Step sampleTroubled sampleRefused :=
    (steps_scanFor 1 1 _).trans (steps_publishFor 1 0 _)
  have calmed : Step sampleRefused { sampleRefused with failingKeys := [], traps := [] } :=
    .disturb (.of_faults _ _ (by simp))
  have sent : ReflTransGen Step sampleCalmed sampleSent :=
    (steps_grown four).trans ((steps_grown five).trans (steps_grown six))
  exact .head troubled (refused.trans (.head calmed ((steps_publishFor 1 0 _).trans sent)))

theorem orders_eq_direct_of_two_wallets :
    (sampleEnd.cursor.block = safeBlock sampleEnd ∧
      (∀ r ∈ sampleEnd.outbox.rows, r.status = .sent) ∧ sampleEnd.bus.unread = 0) ∧
      (sampleEnd.orders.orders.map Order.anonymous).Perm
        (sampleScene.wallets.flatMap fun wallet =>
          (sampleScene.directly (.ofUnixMillis 0) (safeBlock sampleEnd) wallet).2.orders.map
            Order.anonymous) ∧
      (sampleEnd.orders.orders.map outline).Perm sampleOutline := by
  obtain ⟨-, ⟨scanned, sent⟩, patient, sound, rows⟩ := sampleSent_ready
  have onCourse := onCourse_of_steps (.ofUnixMillis 0) steps_sampleSent
  obtain ⟨keeps, consumed⟩ : Keeps sampleScene sampleSent sampleEnd ∧ sampleEnd.bus.unread = 0 :=
    onCourse.read_to_end_of_hindered
      (fun e member => Message.isApplicable_iff.mp (sound e member)) patient
  have steps : ReflTransGen Step sampleScene.world sampleEnd :=
    (steps_sampleSent.tail (step_hindered _)).trans (steps_consumeFor 1 _)
  have scanned' : sampleEnd.cursor.block = safeBlock sampleEnd := by
    rw [keeps.cursor, keeps.safeBlock_eq onCourse.steady, scanned]
  have sent' : ∀ r ∈ sampleEnd.outbox.rows, r.status = .sent := by
    rw [keeps.outbox]
    exact sent
  obtain ⟨-, -, orders⟩ := orders_eq_direct steps scanned' sent' consumed (.ofUnixMillis 0)
  refine ⟨⟨scanned', sent', consumed⟩, orders, ?_⟩
  have outlines := orders.map outline
  simp only [Scene.directly, keeps.safeBlock_eq onCourse.steady, ← onCourse.events_eq scanned,
    List.map_flatMap, List.map_map] at outlines
  rw [← rows]
  exact outlines

end VaultTransfers.Session
