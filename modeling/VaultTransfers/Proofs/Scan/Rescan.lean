import VaultTransfers.Proofs.Scan.Resolution
import VaultTransfers.Proofs.Scan.Smooth

/-!
Blocks that are scanned again. When the cursor is put back, a scan comes across
logs that it has recorded before, whatever has become of their rows since and
however the range is cut now. It finds the events that the rows have, so that it
leaves the rows as they are, and adds those of wallets that have come to be
watched in the meantime.
-/

namespace VaultTransfers.Scan

open Program (Ends)

namespace Survey

/-- The event is of a log that qualifies, from behind `after` and not behind `last`. -/
def Occurs (survey : Survey) (list : WatchList) (after last : UInt64) (e : VaultEvent) : Prop :=
  ∃ c, survey.Qualifies list c ∧ after < c.log.blockNumber ∧ c.log.blockNumber ≤ last ∧
    survey.ledger.event? c = some e

/-- A scan that has gone on from behind `after`, no further than `limit`. Behind the rows that were
there before are the rows that it has added, and no event behind the cursor is without a row. -/
structure Resumed (survey : Survey) (list : WatchList) (after limit : UInt64) (old : Outbox)
    (s : Shared) : Prop where
  watches : s.Watches list
  started : after ≤ s.cursor.block
  bounded : s.cursor.block ≤ limit
  rows : ∃ new, s.box.rows = old.rows ++ new ∧ old.Adds (survey.Occurs list after limit) new
  covered : survey.Covered list s after s.cursor.block

/-- Every event of the outbox is one of the chain, of a wallet of the list. -/
def Authentic (survey : Survey) (list : WatchList) (box : Outbox) : Prop :=
  ∀ e ∈ box.events, ∃ c, survey.Qualifies list c ∧ survey.ledger.event? c = some e

variable {survey : Survey} {sc : Scanner} {head : UInt64} {list : WatchList}
  {after limit : UInt64} {old : Outbox} {s t : Shared} {e : VaultEvent}

namespace Resumed

theorem of_stays (resumed : survey.Resumed list after limit old s) (watches : t.Watches list)
    (stays : s.Stays t) : survey.Resumed list after limit old t where
  watches := watches
  started := stays.cursor ▸ resumed.started
  bounded := stays.cursor ▸ resumed.bounded
  rows := stays.box ▸ resumed.rows
  covered := by
    rw [stays.cursor]
    exact resumed.covered.mono (stays.box ▸ List.Subset.refl _)

/-- An event of the chain is recorded as it is, if it is recorded. -/
theorem eq_of_key (resumed : survey.Resumed list after limit old s)
    (authentic : survey.Authentic list old) (occurs : survey.Occurs list after limit e)
    {r : Outbox.Row} (member : r ∈ s.box.rows) (same : r.event.key = e.key) : r.event = e := by
  obtain ⟨new, rows, adds⟩ := resumed.rows
  obtain ⟨c, qualifies, -, -, told⟩ := occurs
  have source : ∃ d, survey.Qualifies list d ∧ survey.ledger.event? d = some r.event := by
    rw [rows] at member
    rcases List.mem_append.mp member with among | added
    · exact authentic r.event (List.mem_map_of_mem among)
    · obtain ⟨d, qualifies', -, -, told'⟩ := adds.fits r added
      exact ⟨d, qualifies', told'⟩
  obtain ⟨d, qualifies', told'⟩ := source
  rw [key_of_event? told, key_of_event? told'] at same
  obtain rfl := qualifies'.eq_of_key qualifies same
  exact Option.some.inj (told'.symm.trans told)

theorem record (resumed : survey.Resumed list after limit old s)
    (authentic : survey.Authentic list old) (occurs : survey.Occurs list after limit e) :
    survey.Resumed list after limit old { s with box := s.box.record e } ∧
      s.box.events ⊆ (s.box.record e).events ∧ e ∈ (s.box.record e).events := by
  obtain ⟨new, rows, adds⟩ := resumed.rows
  obtain ⟨among, kept, rows'⟩ :=
    adds.record rows (fun r => resumed.eq_of_key authentic occurs) occurs
  refine ⟨?_, kept, among⟩
  exact { resumed with
    watches := ⟨resumed.watches.watched, resumed.watches.remembered⟩
    rows := rows'
    covered := resumed.covered.mono kept }

theorem advance (resumed : survey.Resumed list after limit old s) {target : UInt64}
    (later : s.cursor.block < target) (final : target ≤ limit)
    (covered : survey.Covered list s s.cursor.block target) :
    survey.Resumed list after limit old { s with cursor := ⟨target⟩ } where
  watches := ⟨resumed.watches.watched, resumed.watches.remembered⟩
  started := UInt64.le_trans resumed.started (UInt64.le_of_lt later)
  bounded := final
  rows := resumed.rows
  covered := resumed.covered.append covered

end Resumed

theorem succeeds_recordAll (resumed : survey.Resumed list after limit old s)
    (authentic : survey.Authentic list old) {es : List VaultEvent}
    (occurs : ∀ e ∈ es, survey.Occurs list after limit e) :
    Succeeds (survey.smooth sc head) (recordAll es) s fun _ t =>
      survey.Resumed list after limit old t ∧ t.cursor = s.cursor ∧
        s.box.events ⊆ t.box.events ∧ es ⊆ t.box.events := by
  induction es generalizing s with
  | nil => exact Succeeds.pure ⟨resumed, rfl, List.Subset.refl _, List.nil_subset _⟩
  | cons e es ih =>
      obtain ⟨occurs_e, occurs_es⟩ := List.forall_mem_cons.mp occurs
      obtain ⟨recorded, kept, among⟩ := resumed.record authentic occurs_e
      unfold recordAll
      refine Succeeds.bind (Succeeds.orFail (Succeeds.ask ?_))
      intro r t served
      obtain ⟨rfl, rfl⟩ := Prod.mk.inj served
      refine ⟨(), rfl, (ih recorded occurs_es).mono ?_⟩
      rintro _ u ⟨resumed', cursor, kept', all⟩
      exact ⟨resumed', cursor, List.Subset.trans kept kept', List.cons_subset.mpr ⟨kept' among, all⟩⟩

theorem succeeds_scanRange (resumed : survey.Resumed list after limit old s)
    (authentic : survey.Authentic list old) (passable : survey.Passable list after limit)
    {target : UInt64} (later : s.cursor.block < target) (final : target ≤ limit) :
    Succeeds (survey.smooth sc head)
      (scanRange (survey.plan sc) (s.cursor.block + 1) target) s fun _ t =>
        survey.Resumed list after limit old t ∧ t.cursor = s.cursor ∧
          survey.Covered list t s.cursor.block target := by
  have legible : survey.Passable list s.cursor.block target := fun log selects lower upper =>
    passable log selects (UInt64.lt_of_le_of_lt resumed.started lower) (UInt64.le_trans upper final)
  unfold scanRange
  refine Succeeds.bind ((finds_resolveRange later legible s resumed.watches).mono ?_)
  rintro es t ⟨watches, stays, found⟩
  have occurs : ∀ e ∈ es, survey.Occurs list after limit e := by
    intro e member
    obtain ⟨c, qualifies, lower, upper, told⟩ := (found e).mp member
    exact ⟨c, qualifies, UInt64.lt_of_le_of_lt resumed.started lower, UInt64.le_trans upper final,
      told⟩
  refine Succeeds.bind ((succeeds_recordAll (resumed.of_stays watches stays) authentic occurs).mono
    ?_)
  rintro _ u ⟨resumed', cursor, -, all⟩
  refine Succeeds.pure ⟨resumed', cursor.trans stays.cursor, ?_⟩
  intro c qualifies lower upper
  have within : c.log.blockNumber ≤ limit := UInt64.le_trans upper final
  obtain ⟨resolution, read, known⟩ := passable c.log qualifies.selects
    (UInt64.lt_of_le_of_lt resumed.started lower) within
  obtain rfl := Except.ok.inj (read.symm.trans qualifies.resolved)
  obtain ⟨e, told⟩ := Option.isSome_iff_exists.mp
    ((known c.decoded rfl qualifies.listed).2 qualifies.succeeded)
  exact ⟨e, all ((found e).mpr ⟨c, qualifies, lower, upper, told⟩), told⟩

theorem succeeds_advance {target : UInt64} (later : s.cursor.block < target) :
    Succeeds (survey.smooth sc head) (askCursor (.advance s.cursor.block target)) s fun moved t =>
      moved = true ∧ t = { s with cursor := ⟨target⟩ } := by
  have admitted : s.cursor.admits s.cursor.block target = true := by
    simp [Cursor.admits, later]
  refine Succeeds.orFail (Succeeds.ask ?_)
  intro r t served
  obtain ⟨rfl, rfl⟩ := Prod.mk.inj served
  simp only [Cursor.answer, admitted, if_true]
  exact ⟨true, rfl, rfl, trivial⟩

theorem succeeds_chunks (resumed : survey.Resumed list after limit old s)
    (authentic : survey.Authentic list old) (passable : survey.Passable list after limit)
    {sum : Summary} (cursor : sum.cursor = s.cursor.block) (final : sum.safeBlock ≤ limit) :
    Succeeds (survey.smooth sc head) (chunks (survey.plan sc) sum) s fun _ t =>
      survey.Resumed list after limit old t ∧ s.cursor.block ≤ t.cursor.block ∧
        sum.safeBlock ≤ t.cursor.block := by
  -- the induction is the loop's own, on the blocks that are left to scan
  induction left : sum.safeBlock.toNat - sum.cursor.toNat using Nat.strongRecOn
    generalizing sum s with
  | ind n ih =>
      rw [chunks]
      split
      · rename_i below
        refine Succeeds.bind (Succeeds.ask ?_)
        intro stop t served
        obtain ⟨rfl, rfl⟩ := Prod.mk.inj served.symm
        have ahead := lt_chunkEnd below (survey.plan sc).chunkSize_pos
        have shorter := toNat_sub_chunkEnd_lt below (survey.plan sc).chunkSize_pos
        have within := UInt64.le_trans (chunkEnd_le below (survey.plan sc).chunkSize) final
        rw [left] at shorter
        rw [cursor] at ahead shorter within ⊢
        refine Succeeds.bind
          ((succeeds_scanRange resumed authentic passable ahead within).mono ?_)
        rintro recorded u ⟨scanned, same, covered⟩
        have block : u.cursor.block = s.cursor.block := congrArg Cursor.block same
        rw [← block] at ahead shorter covered ⊢
        refine Succeeds.bind ((succeeds_advance ahead).mono ?_)
        rintro _ v ⟨rfl, rfl⟩
        have advanced := scanned.advance ahead (block ▸ within) covered
        refine Succeeds.mono (ih _ shorter advanced rfl final rfl) ?_
        rintro _ t ⟨ended, onwards, done⟩
        exact ⟨ended, UInt64.le_trans (UInt64.le_of_lt ahead) onwards, done⟩
      · rename_i reached
        exact Succeeds.pure ⟨resumed, UInt64.le_refl _, cursor ▸ UInt64.not_lt.mp reached⟩

theorem succeeds_tick (resumed : survey.Resumed list after limit old s)
    (authentic : survey.Authentic list old) (passable : survey.Passable list after limit)
    (final : (survey.plan sc).safeBlock head ≤ limit) :
    Succeeds (survey.smooth sc head) (tick (survey.plan sc)) s fun _ t =>
      survey.Resumed list after limit old t ∧ s.cursor.block ≤ t.cursor.block ∧
        (survey.plan sc).safeBlock head ≤ t.cursor.block := by
  unfold tick
  refine Succeeds.bind (Succeeds.orFail (Succeeds.ask ?_))
  intro latest t served
  obtain ⟨rfl, rfl⟩ := Prod.mk.inj served
  refine ⟨head, rfl, Succeeds.bind (Succeeds.orFail (Succeeds.ask ?_))⟩
  intro cursor t served
  obtain ⟨rfl, rfl⟩ := Prod.mk.inj served
  have looked : survey.Resumed list after limit old
      { s with finals := (survey.plan sc).safeBlock head :: s.finals } :=
    resumed.of_stays ⟨resumed.watches.watched, resumed.watches.remembered⟩ ⟨rfl, rfl⟩
  exact ⟨s.cursor.block, rfl, succeeds_chunks looked authentic passable rfl final⟩

/-- When all is scanned again, the new rows are those of the events that had no row. -/
theorem Resumed.mem_new_iff (resumed : survey.Resumed list after limit old s)
    (done : s.cursor.block = limit) :
    ∃ new, s.box.rows = old.rows ++ new ∧ (∀ r ∈ new, r.status = .unsent ∧ r.claimedAt = none) ∧
      (new.map (·.event.key)).Nodup ∧
      ∀ e, e ∈ new.map (·.event) ↔ e ∉ old.events ∧ survey.Occurs list after limit e := by
  obtain ⟨new, rows, adds⟩ := resumed.rows
  have events : s.box.events = old.events ++ new.map (·.event) := by
    rw [Outbox.events, rows, List.map_append]
    rfl
  refine ⟨new, rows, adds.waiting, adds.keys, fun e => ⟨fun member => ?_, ?_⟩⟩
  · obtain ⟨r, added, rfl⟩ := List.mem_map.mp member
    refine ⟨fun earlier => ?_, adds.fits r added⟩
    obtain ⟨o, among, same⟩ := List.mem_map.mp earlier
    exact adds.apart r added o among (congrArg VaultEvent.key same)
  · rintro ⟨unrecorded, c, qualifies, lower, upper, told⟩
    obtain ⟨e', member, told'⟩ := resumed.covered c qualifies lower (done ▸ upper)
    obtain rfl := Option.some.inj (told.symm.trans told')
    rw [events] at member
    exact (List.mem_append.mp member).resolve_left unrecorded

/-- Where the list has stood still, the events without a row are those of other wallets. -/
theorem Sound.unrecorded_iff {first : WatchList} {origin : UInt64}
    (sound : survey.Sound first origin s) (stood : ∀ w, s.watched.contains w = first.contains w)
    (started : origin ≤ after) :
    e ∉ s.box.events ∧ survey.Occurs list after s.cursor.block e ↔
      ∃ c, survey.Qualifies list c ∧ first.contains ⟨c.decoded.wallet, survey.chainId⟩ = false ∧
        after < c.log.blockNumber ∧ c.log.blockNumber ≤ s.cursor.block ∧
          survey.ledger.event? c = some e := by
  constructor
  · rintro ⟨unrecorded, c, qualifies, lower, upper, told⟩
    refine ⟨c, qualifies, Bool.eq_false_iff.mpr fun listed => ?_, lower, upper, told⟩
    obtain ⟨e', member, told'⟩ := sound.covered c { qualifies with listed }
      (UInt64.lt_of_le_of_lt started lower) upper
    exact unrecorded (Option.some.inj (told.symm.trans told') ▸ member)
  · rintro ⟨c, qualifies, unlisted, lower, upper, told⟩
    refine ⟨fun recorded => ?_, c, qualifies, lower, upper, told⟩
    obtain ⟨d, qualifies', told', -⟩ := sound.stems e recorded
    have same : c.log.key = d.log.key := (key_of_event? told).symm.trans (key_of_event? told')
    obtain rfl := qualifies.eq_of_key qualifies' same
    have listed := qualifies'.listed
    rw [stood, unlisted] at listed
    cases listed

end Survey

/-- A tick to be: who is at work, and where the head is then. -/
structure Turn where
  scanner : Scanner
  head : UInt64

/-- The cursor is put to a block, and the scanners are to watch the wallets of a list. -/
def Shared.reset (s : Shared) (block : UInt64) (list : WatchList) : Shared :=
  { s with cursor := ⟨block⟩, watched := list }

namespace Survey

def safeBlock (survey : Survey) (turn : Turn) : UInt64 :=
  (survey.plan turn.scanner).safeBlock turn.head

/-- Ticks one after the other that nothing fails for, with what each of them ends with. -/
def Rescans (survey : Survey) : List Turn → Shared → List (Except Fault Summary) → Shared → Prop
  | [], s, results, t => results = [] ∧ t = s
  | turn :: turns, s, results, t => ∃ r u rest,
    Program.Runs (survey.smooth turn.scanner turn.head) (tick (survey.plan turn.scanner)).run s r u ∧
      survey.Rescans turns u rest t ∧ results = r :: rest

variable {survey : Survey} {list : WatchList} {after limit : UInt64} {old : Outbox} {s t : Shared}
  {turns : List Turn} {results : List (Except Fault Summary)}

theorem exists_rescans (survey : Survey) (turns : List Turn) (s : Shared) :
    ∃ results t, survey.Rescans turns s results t := by
  induction turns generalizing s with
  | nil => exact ⟨[], s, rfl, rfl⟩
  | cons turn turns ih =>
      have run := Program.runs_of_interpret (survey.smooth_calmly turn.scanner turn.head)
        (p := (tick (survey.plan turn.scanner)).run) (s := s) rfl
      obtain ⟨rest, t, later⟩ := ih _
      exact ⟨_, t, _, _, rest, run, later, rfl⟩

theorem Resumed.rescans (resumed : survey.Resumed list after limit old s)
    (authentic : survey.Authentic list old) (passable : survey.Passable list after limit)
    (final : ∀ turn ∈ turns, survey.safeBlock turn ≤ limit)
    (run : survey.Rescans turns s results t) :
    (∀ r ∈ results, ∃ sum, r = .ok sum) ∧ survey.Resumed list after limit old t ∧
      s.cursor.block ≤ t.cursor.block ∧ ∀ turn ∈ turns, survey.safeBlock turn ≤ t.cursor.block := by
  induction turns generalizing s results with
  | nil =>
      obtain ⟨rfl, rfl⟩ := run
      exact ⟨by simp, resumed, UInt64.le_refl _, by simp⟩
  | cons turn turns ih =>
      obtain ⟨r, u, rest, first, later, rfl⟩ := run
      obtain ⟨final_turn, final_turns⟩ := List.forall_mem_cons.mp final
      obtain ⟨sum, rfl, resumed', onwards, done⟩ :=
        succeeds_tick resumed authentic passable final_turn r u first
      obtain ⟨all, resumed'', onwards', done'⟩ := ih resumed' final_turns later
      exact ⟨List.forall_mem_cons.mpr ⟨⟨sum, rfl⟩, all⟩, resumed'', UInt64.le_trans onwards onwards',
        List.forall_mem_cons.mpr ⟨UInt64.le_trans done onwards', done'⟩⟩

/-- However a state has been reached, when the cursor is put back to a block and the blocks from
behind it are scanned again, in whatever chunks and with nothing failing, all rows stay as they are,
and rows are added behind them for the events that have none, all of them waiting. So if the list
of wallets stood still during the first scan, the new rows are those of wallets that have come to be
watched since, and there are none if no wallet has. What is to be known about the logs of wallets
that were not on the list is known; for the others the first scan has found it so. -/
theorem rescan_adds_newly_watched
    {p : Pool (Scan.interface.named Scanner) Shared (Except Fault Summary)}
    {first later : WatchList} {origin block : UInt64}
    (reached : Pool.Reachable survey.serves survey.Ticks Shared.Happens (.start first origin) p)
    (started : origin ≤ block) (behind : block ≤ p.state.cursor.block)
    (grown : ∀ w, p.state.watched.contains w = true → later.contains w = true)
    (known : ∀ c : Candidate, survey.Selects c.log → block < c.log.blockNumber →
      c.log.blockNumber ≤ p.state.cursor.block →
        c.log.resolve survey.contracts = .ok (.event c.decoded) →
          later.contains ⟨c.decoded.wallet, survey.chainId⟩ = true →
            first.contains ⟨c.decoded.wallet, survey.chainId⟩ = false → survey.Known c)
    (final : ∀ turn ∈ turns, survey.safeBlock turn ≤ p.state.cursor.block)
    (whole : ∃ turn ∈ turns, survey.safeBlock turn = p.state.cursor.block) :
    (∃ results t, survey.Rescans turns (p.state.reset block later) results t) ∧
    ∀ results t, survey.Rescans turns (p.state.reset block later) results t →
      (∀ r ∈ results, ∃ sum, r = .ok sum) ∧ t.cursor.block = p.state.cursor.block ∧
      ∃ new, t.box.rows = p.state.box.rows ++ new ∧
        (∀ r ∈ new, r.status = .unsent ∧ r.claimedAt = none) ∧
        (new.map (·.event.key)).Nodup ∧
        (∀ e, e ∈ new.map (·.event) ↔
          e ∉ p.state.box.events ∧ survey.Occurs later block p.state.cursor.block e) ∧
        ((∀ w, p.state.watched.contains w = first.contains w) →
          (∀ e, e ∈ new.map (·.event) ↔ ∃ c, survey.Qualifies later c ∧
            first.contains ⟨c.decoded.wallet, survey.chainId⟩ = false ∧
            block < c.log.blockNumber ∧ c.log.blockNumber ≤ p.state.cursor.block ∧
              survey.ledger.event? c = some e) ∧
          ((∀ w, later.contains w = first.contains w) → new = [])) := by
  have sound := (orderly_of_reachable reached).1
  have resumed : survey.Resumed later block p.state.cursor.block p.state.box
      (p.state.reset block later) :=
    { watches := ⟨rfl, fun e member => grown _ (sound.remembered e member)⟩
      started := UInt64.le_refl _
      bounded := behind
      rows := ⟨[], (List.append_nil _).symm, ⟨by simp, by simp, by simp, by simp⟩⟩
      covered := fun c _ lower upper => absurd lower (UInt64.not_lt.mpr upper) }
  have authentic : survey.Authentic later p.state.box := by
    intro e member
    obtain ⟨c, qualifies, told, -⟩ := sound.stems e member
    exact ⟨c, qualifies.mono grown, told⟩
  have passable : survey.Passable later block p.state.cursor.block := by
    intro log selects lower upper
    obtain ⟨resolution, read, known'⟩ := sound.passable log selects
      (UInt64.lt_of_le_of_lt started lower) upper
    refine ⟨resolution, read, ?_⟩
    rintro decoded rfl listed
    cases earlier : first.contains ⟨decoded.wallet, survey.chainId⟩ with
    | true => exact known' decoded rfl earlier
    | false => exact known ⟨log, decoded⟩ selects lower upper read listed earlier
  refine ⟨survey.exists_rescans turns _, fun results t run => ?_⟩
  obtain ⟨all, resumed', -, done⟩ := resumed.rescans authentic passable final run
  obtain ⟨turn, among, last⟩ := whole
  have ended : t.cursor.block = p.state.cursor.block :=
    UInt64.le_antisymm resumed'.bounded (last ▸ done turn among)
  obtain ⟨new, rows, waiting, keys, events⟩ := resumed'.mem_new_iff ended
  refine ⟨all, ended, new, rows, waiting, keys, events, fun stood => ?_⟩
  have others (e : VaultEvent) := (events e).trans (sound.unrecorded_iff stood started)
  refine ⟨others, fun same => ?_⟩
  rw [List.eq_nil_iff_forall_not_mem]
  intro r member
  obtain ⟨c, qualifies, unlisted, -⟩ := (others r.event).mp (List.mem_map_of_mem member)
  have listed := qualifies.listed
  rw [same, unlisted] at listed
  cases listed

end Survey

/-- A chain with deposits of two wallets, in blocks 2 and 5. -/
def sampleDeposits : Survey where
  contracts := sampleSurvey.contracts
  chainId := 1
  ledger := { Session.Ledger.ofLatest 6 with
    logs := [sampleDeposit 0x11 2, sampleDeposit 0x12 5] }
  keys := by decide +kernel

def sampleFirstScan : Except Fault Summary × Shared :=
  (tick (sampleDeposits.plan sampleCareful)).run.interpret (sampleDeposits.calmly sampleCareful 6)
    (.start sampleList 1)

/-- The wallet's row has been claimed since. -/
def sampleClaimed : Shared :=
  { sampleFirstScan.2 with box := (Outbox.answer 0 (.claim 10) sampleFirstScan.2.box).2 }

/-- The other wallet has been registered. -/
def sampleGrown : WatchList :=
  sampleList.register ⟨(Address.ofNat 0x12).checksummed, 1⟩

/-- A scanner that takes the head itself for final, and two blocks at once. -/
def samplePrompt : Scanner := ⟨3, 0, 2, by decide⟩

def sampleSecondScan : Except Fault Summary × Shared :=
  (tick (sampleDeposits.plan samplePrompt)).run.interpret (sampleDeposits.calmly samplePrompt 5)
    (sampleClaimed.reset 1 sampleGrown)

theorem rescan_adds_second_deposit :
    (sampleClaimed.box.rows.map (·.status) = [.processing] ∧ sampleClaimed.cursor.block = 5) ∧
      ∃ new, sampleSecondScan.2.box.rows = sampleClaimed.box.rows ++ new ∧
        new.map (·.event.blockNumber) = [5] ∧ ∀ r ∈ new, r.status = .unsent := by
  have computed : (sampleClaimed.box.rows.map (·.status) = [.processing] ∧
      sampleClaimed.cursor.block = 5) ∧ sampleClaimed.watched = sampleList ∧
        sampleClaimed.box.rows.map (·.event.blockNumber) = [2] ∧
          sampleSecondScan.2.box.rows.map (·.event.blockNumber) = [2, 5] := by decide +kernel
  obtain ⟨scanned, watched, block, blocks⟩ := computed
  have run : Program.Runs (sampleDeposits.answers sampleCareful)
      (tick (sampleDeposits.plan sampleCareful)).run (.start sampleList 1) sampleFirstScan.1
        sampleFirstScan.2 :=
    Program.runs_of_interpret (sampleDeposits.answers_calmly sampleCareful 6) rfl
  have started : Pool.Reachable sampleDeposits.serves sampleDeposits.Ticks Shared.Happens
      (.start sampleList 1)
      ⟨.start sampleList 1, [(tick (sampleDeposits.plan sampleCareful)).run.under sampleCareful]⟩ :=
    Pool.Reachable.start.step (.start _ ⟨sampleCareful, rfl⟩)
  have claimed : sampleFirstScan.2.Happens sampleClaimed := .publish (by simp) 0
  have reached := (started.of_advances [] run.advances.under).step (.environment claimed)
  have grown : ∀ w, sampleClaimed.watched.contains w = true → sampleGrown.contains w = true := by
    intro w listed
    rw [sampleGrown, WatchList.contains_register, ← watched, listed, Bool.or_true]
  have told : ∀ log ∈ sampleDeposits.ledger.logs,
      ((sampleDeposits.ledger.secondsOf log.blockNumber).bind Instant.ofUnix?).isSome = true ∧
        sampleDeposits.ledger.statusOf log.txHash = .ok := by decide +kernel
  have known : ∀ c : Candidate, sampleDeposits.Selects c.log → sampleDeposits.Known c := by
    intro c selects
    obtain ⟨time, status⟩ := told c.log selects.member
    refine ⟨by simp [status], fun _ => ?_⟩
    rw [Session.Ledger.event?, Option.isSome_map]
    exact time
  have final : sampleDeposits.safeBlock ⟨samplePrompt, 5⟩ = sampleClaimed.cursor.block := by
    rw [scanned.2]
    decide
  have again : sampleDeposits.Rescans [⟨samplePrompt, 5⟩] (sampleClaimed.reset 1 sampleGrown)
      [sampleSecondScan.1] sampleSecondScan.2 :=
    ⟨sampleSecondScan.1, sampleSecondScan.2, [],
      Program.runs_of_interpret (sampleDeposits.smooth_calmly samplePrompt 5) rfl, ⟨rfl, rfl⟩, rfl⟩
  obtain ⟨-, rescanned⟩ := Survey.rescan_adds_newly_watched reached (UInt64.le_refl 1)
    (by rw [scanned.2]; decide) grown (fun c selects _ _ _ _ _ => known c selects)
    (by simp [final]) ⟨_, List.mem_singleton_self _, final⟩
  obtain ⟨-, -, new, rows, waiting, -⟩ := rescanned _ _ again
  refine ⟨scanned, new, rows, ?_, fun r member => (waiting r member).1⟩
  rw [rows, List.map_append, block] at blocks
  exact (List.cons.inj blocks).2

end VaultTransfers.Scan
