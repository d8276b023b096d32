import VaultTransfers.Proofs.Scan.Fleet
import VaultTransfers.Proofs.Scan.Tick

/-!
Ticks keep to what scanners have to keep to, whatever the others do meanwhile: a
range of blocks is recorded before the cursor is moved over it, from where the
tick has read it to be, and a tick that finds the cursor elsewhere is over. So
the cursor, however many scanners move it, has no event behind it that is not
recorded.
-/

namespace VaultTransfers.Scan

open Program (Meets)
open Session (Ledger)

/-- Among others, the task makes allowed calls only, and what it answers is as stated. -/
def Yields (d : Discipline Scan.interface Shared) {α : Type} (p : Task α) (s : Shared)
    (facts : α → Shared → Prop) : Prop :=
  Meets d p.run s fun r t => ∀ a, r = .ok a → facts a t

namespace Yields

variable {d : Discipline Scan.interface Shared} {α β : Type} {s : Shared}
  {facts : α → Shared → Prop} {facts' : β → Shared → Prop}

theorem pure {a : α} (holds : facts a s) : Yields d (Pure.pure a) s facts := by
  rintro b same
  cases same
  exact holds

theorem throw (fault : Fault) : Yields d (throw fault : Task α) s facts := by
  rintro b same
  cases same

theorem bind {p : Task α} {f : α → Task β} (first : Yields d p s facts)
    (rest : ∀ a t, d.moves s t → facts a t → Yields d (f a) t facts') :
    Yields d (p >>= f) s facts' := by
  refine Meets.except_bind (Meets.mono (Meets.and_moves first) ?_)
  rintro r t ⟨told, moved⟩
  cases r with
  | ok a => exact rest a t moved (told a rfl)
  | error fault =>
      rintro b same
      cases same

theorem mono {p : Task α} {weaker : α → Shared → Prop} (yields : Yields d p s facts)
    (imp : ∀ a t, d.moves s t → facts a t → weaker a t) : Yields d p s weaker := by
  rw [← bind_pure p]
  exact yields.bind fun a t moved holds => pure (imp a t moved holds)

theorem ask {c : Scan.Call} {facts : Scan.Reply c → Shared → Prop}
    (allowed : ∀ t, d.moves s t → d.good t → d.allowed c t)
    (told : ∀ t r u, d.moves s t → d.good t → d.serve c t r u → facts r u) :
    Yields d (ask c) s facts := by
  intro t moved good
  refine ⟨allowed t moved good, ?_⟩
  intro r u served b same
  cases same
  exact told t r u moved good served

theorem orFail {ε : Type} {fault : ε → Fault} {p : Task (Except ε α)}
    (asked : Yields d p s fun r t => ∀ a, r = .ok a → facts a t) :
    Yields d (p >>= orFail fault) s facts := by
  refine asked.bind ?_
  intro r t _ told
  cases r with
  | ok a => exact pure (told a rfl)
  | error e => exact throw _

theorem done {p : Task α} (yields : Yields d p s facts) : Meets d p.run s fun _ _ => True :=
  Meets.mono yields fun _ _ _ => trivial

end Yields

namespace Survey

variable (survey : Survey) (list : WatchList) (origin : UInt64) (sc : Scanner)

/-- What one of the scanners has to keep to. -/
def rule : Discipline Scan.interface Shared :=
  (survey.discipline list origin).of sc

variable {survey list origin sc} {s : Shared}

theorem yields_consulting {α : Type} {p : Task α} {facts : α → Prop}
    (consulting : Consulting survey.ledger p facts) :
    Yields (survey.rule list origin sc) p s fun a _ => facts a := by
  have meets {β : Type} {q : Program Scan.interface β} {fits : β → Prop}
      (consults : Consults survey.ledger fits q) (s : Shared) :
      Meets (survey.rule list origin sc) q s fun b _ => fits b := by
    induction consults generalizing s with
    | done holds => exact holds
    | @call c next other _ _ answered failed =>
        intro t moved good
        refine ⟨trivial, ?_⟩
        intro reply u served
        have replied : reply = survey.ledger.answer c ∨ ∃ fault, reply = .error fault := by
          cases c with
          | latestBlock => exact absurd rfl other
          | logs _ _ _ _ => exact served.1
          | succeeded _ => exact served.1
          | blockTime _ => exact served.1
        rcases replied with rfl | ⟨fault, rfl⟩
        · exact answered u
        · exact failed fault u
  exact meets consulting s

/-- A wallet of the list is found to be watched, and no wallet is that has not been registered. -/
theorem yields_isWatched (w : Watched) :
    Yields (survey.rule list origin sc) (isWatched w) s fun b t =>
      (b = true → t.watched.contains w = true) ∧ (list.contains w = true → b = true) := by
  have known : Yields (survey.rule list origin sc) (ask (.knows w)) s fun b t =>
      b = true → t.watched.contains w = true := by
    refine Yields.ask (fun _ _ _ => trivial) ?_
    rintro t b _ _ sound ⟨told, rfl⟩ same
    exact sound.remembered _ (told same)
  have looked (s : Shared) : Yields (survey.rule list origin sc) (askWatchList (.contains w)) s
      fun b t => (b = true → t.watched.contains w = true) ∧ (list.contains w = true → b = true) := by
    have asked : Yields (survey.rule list origin sc) (ask (.watchList (.contains w))) s fun r t =>
        ∀ b, r = .ok b → (b = true → t.watched.contains w = true) ∧
          (list.contains w = true → b = true) := by
      refine Yields.ask (fun _ _ _ => trivial) ?_
      rintro t r _ _ sound ⟨watched, outcome | ⟨fault, rfl, -⟩, rfl⟩ b same
      · cases outcome
        cases same
        exact ⟨id, sound.listed w⟩
      · cases same
    exact asked.orFail
  unfold isWatched
  refine known.bind ?_
  intro b t _ told
  cases b with
  | true => exact Yields.pure ⟨told, fun _ => rfl⟩
  | false =>
      refine (looked t).bind ?_
      rintro b u _ ⟨listed, found⟩
      cases b with
      | true =>
          have remembered : Yields (survey.rule list origin sc) (ask (.remember w)) u
              fun _ _ => True :=
            Yields.ask (fun v moved _ => moved.watched w (listed rfl)) fun _ _ _ _ _ _ => trivial
          refine remembered.bind ?_
          intro _ v moved _
          exact Yields.pure ⟨fun _ => moved.watched w (listed rfl), fun _ => rfl⟩
      | false => exact Yields.pure ⟨listed, found⟩

/-- The candidates are of logs, each with what it means, and of watched wallets; all those of the list
are among them. -/
structure Picks (survey : Survey) (list : WatchList) (logs : List Log) (cs : List Candidate)
    (s : Shared) : Prop where
  within : ∀ c ∈ cs, c.log ∈ logs
  resolved : ∀ c ∈ cs, c.log.resolve survey.contracts = .ok (.event c.decoded)
  watched : ∀ c ∈ cs, s.watched.contains ⟨c.decoded.wallet, survey.chainId⟩ = true
  complete : ∀ c : Candidate, c.log ∈ logs →
    c.log.resolve survey.contracts = .ok (.event c.decoded) →
      list.contains ⟨c.decoded.wallet, survey.chainId⟩ = true → c ∈ cs
  decoded : ∀ log ∈ logs, ∃ resolution, log.resolve survey.contracts = .ok resolution

namespace Picks

variable {log : Log} {logs : List Log} {decoded : DecodedLog} {cs : List Candidate}

theorem nil : survey.Picks list [] [] s :=
  ⟨by simp, by simp, by simp, by simp, by simp⟩

theorem skip (picks : survey.Picks list logs cs s) {resolution : Resolution}
    (read : log.resolve survey.contracts = .ok resolution)
    (unlisted : ∀ decoded, log.resolve survey.contracts = .ok (.event decoded) →
      list.contains ⟨decoded.wallet, survey.chainId⟩ = false) :
    survey.Picks list (log :: logs) cs s where
  within c member := List.mem_cons_of_mem _ (picks.within c member)
  resolved := picks.resolved
  watched := picks.watched
  complete := by
    intro c member resolved listed
    rcases List.mem_cons.mp member with rfl | later
    · rw [unlisted _ resolved] at listed
      cases listed
    · exact picks.complete c later resolved listed
  decoded := List.forall_mem_cons.mpr ⟨⟨_, read⟩, picks.decoded⟩

theorem take (picks : survey.Picks list logs cs s)
    (resolved : log.resolve survey.contracts = .ok (.event decoded))
    (watched : s.watched.contains ⟨decoded.wallet, survey.chainId⟩ = true) :
    survey.Picks list (log :: logs) (⟨log, decoded⟩ :: cs) s where
  within := List.forall_mem_cons.mpr
    ⟨List.mem_cons_self, fun c member => List.mem_cons_of_mem _ (picks.within c member)⟩
  resolved := List.forall_mem_cons.mpr ⟨resolved, picks.resolved⟩
  watched := List.forall_mem_cons.mpr ⟨watched, picks.watched⟩
  complete := by
    rintro ⟨log', decoded'⟩ member resolved' listed
    rcases List.mem_cons.mp member with rfl | later
    · cases resolved.symm.trans resolved'
      exact List.mem_cons_self
    · exact List.mem_cons_of_mem _ (picks.complete _ later resolved' listed)
  decoded := List.forall_mem_cons.mpr ⟨⟨_, resolved⟩, picks.decoded⟩

end Picks

theorem yields_candidates (logs : List Log) :
    Yields (survey.rule list origin sc) (candidates (survey.plan sc) logs) s
      (survey.Picks list logs) := by
  induction logs generalizing s with
  | nil => exact Yields.pure .nil
  | cons log logs ih =>
      have skipped {s : Shared} {resolution : Resolution}
          (resolved : log.resolve survey.contracts = .ok resolution)
          (unlisted : ∀ decoded, log.resolve survey.contracts = .ok (.event decoded) →
            list.contains ⟨decoded.wallet, survey.chainId⟩ = false) :
          Yields (survey.rule list origin sc) (candidates (survey.plan sc) logs) s
            (survey.Picks list (log :: logs)) :=
        ih.mono fun cs t _ picks => picks.skip resolved unlisted
      unfold candidates
      cases resolved : log.resolve (survey.plan sc).contracts with
      | error fault => exact Yields.throw _
      | ok resolution =>
          cases resolution with
          | skipped reason =>
              refine skipped resolved fun decoded same => ?_
              cases resolved.symm.trans same
          | event decoded =>
              refine (yields_isWatched _).bind ?_
              rintro b t _ ⟨watched, found⟩
              cases b with
              | false =>
                  refine skipped resolved fun decoded' same => ?_
                  cases resolved.symm.trans same
                  exact Bool.eq_false_iff.mpr fun listed => by simpa using found listed
              | true =>
                  refine ih.bind ?_
                  intro cs u moved picks
                  exact Yields.pure (picks.take resolved (moved.watched _ (watched rfl)))

/-- The logs of a range that are given out, without those that were taken back. -/
theorem mem_asked (survey : Survey) {after last : UInt64} (later : after < last) (log : Log) :
    log ∈ Log.inOrder ((survey.ledger.logs.filter (survey.ledger.answers (after + 1) last
        survey.contracts.emitters (EventKind.all.map EventKind.topic))).filter (!·.removed)) ↔
      survey.Selects log ∧ after < log.blockNumber ∧ log.blockNumber ≤ last := by
  rw [Log.inOrder, List.mem_mergeSort, List.mem_filter, List.mem_filter,
    answers_eq survey.ledger _ _ log later, Bool.and_eq_true, within_iff, Bool.not_eq_true']
  constructor
  · rintro ⟨⟨member, inside, selected⟩, kept⟩
    exact ⟨⟨member, kept, selected⟩, inside⟩
  · rintro ⟨⟨member, kept, selected⟩, inside⟩
    exact ⟨⟨member, inside, selected⟩, kept⟩

/-- A range that is resolved can be read, and is resolved to events of its blocks, among them all
those of wallets of the list. -/
theorem yields_resolveRange {after last : UInt64} (later : after < last) :
    Yields (survey.rule list origin sc) (resolveRange (survey.plan sc) (after + 1) last) s
      fun es t =>
        (∀ e ∈ es, ∃ c, survey.Qualifies t.watched c ∧ survey.ledger.event? c = some e ∧
          after < c.log.blockNumber ∧ c.log.blockNumber ≤ last) ∧
        (∀ c, survey.Qualifies list c → after < c.log.blockNumber → c.log.blockNumber ≤ last →
          ∃ e ∈ es, survey.ledger.event? c = some e) ∧
        survey.Passable list after last := by
  unfold resolveRange
  refine (yields_consulting (Consulting.askChain (by simp))).bind ?_
  intro logs t _ answered
  obtain rfl := Except.ok.inj answered
  refine (yields_candidates _).bind ?_
  intro found u _ picks
  refine (yields_consulting (consulting_rest found)).mono ?_
  rintro es v moved ⟨rfl, told, known⟩
  have asked := mem_asked survey later
  have kept {c : Candidate} (among : c ∈ found)
      (succeeded : survey.ledger.statusOf c.log.txHash = .ok) :
      c ∈ found.filter fun c => survey.ledger.statusOf c.log.txHash = .ok :=
    List.mem_filter.mpr ⟨among, decide_eq_true succeeded⟩
  refine ⟨?_, ?_, ?_⟩
  · intro e member
    obtain ⟨c, among, event⟩ := List.mem_filterMap.mp member
    obtain ⟨among, succeeded⟩ := List.mem_filter.mp among
    have resolved := picks.resolved c among
    obtain ⟨selects, inside⟩ := (asked c.log).mp (picks.within c among)
    have watched := moved.watched _ (picks.watched c among)
    exact ⟨c, ⟨selects.member, selects.kept, resolved, watched, of_decide_eq_true succeeded⟩, event,
      inside⟩
  · intro c qualifies lower upper
    have inside := (asked c.log).mpr ⟨qualifies.selects, lower, upper⟩
    have among := kept (picks.complete c inside qualifies.resolved qualifies.listed)
      qualifies.succeeded
    obtain ⟨e, event⟩ := Option.isSome_iff_exists.mp (told c among)
    exact ⟨e, List.mem_filterMap.mpr ⟨c, among, event⟩, event⟩
  · intro log selects lower upper
    have inside := (asked log).mpr ⟨selects, lower, upper⟩
    obtain ⟨resolution, resolved⟩ := picks.decoded log inside
    refine ⟨resolution, resolved, ?_⟩
    rintro decoded rfl listed
    have among : ⟨log, decoded⟩ ∈ found := picks.complete ⟨log, decoded⟩ inside resolved listed
    exact ⟨known _ among, fun succeeded => told _ (kept among succeeded)⟩

theorem yields_record {e : VaultEvent} (stems : survey.Stems origin s e) :
    Yields (survey.rule list origin sc) (askOutbox (.record e)) s fun _ t => e ∈ t.box.events := by
  have asked : Yields (survey.rule list origin sc) (ask (.outbox (.record e))) s fun r t =>
      ∀ a, r = .ok a → e ∈ t.box.events := by
    refine Yields.ask (fun t moved _ => stems.mono moved) ?_
    rintro t r _ moved sound ⟨now, box, outcome | ⟨fault, rfl, -⟩, rfl⟩ a same
    · cases outcome
      exact (Sound.record sound (stems.mono moved)).2.2
    · cases same
  exact asked.orFail

theorem yields_recordAll {es : List VaultEvent} (stems : ∀ e ∈ es, survey.Stems origin s e) :
    Yields (survey.rule list origin sc) (recordAll es) s fun _ t => es ⊆ t.box.events := by
  induction es generalizing s with
  | nil => exact Yields.pure (List.nil_subset _)
  | cons e es ih =>
      unfold recordAll
      refine (yields_record (stems e List.mem_cons_self)).bind ?_
      intro _ t moved recorded
      refine (ih fun e' member => (stems e' (List.mem_cons_of_mem _ member)).mono moved).mono ?_
      intro _ u moved' rest
      exact List.cons_subset.mpr ⟨moved'.events recorded, rest⟩

theorem yields_scanRange {after last : UInt64} (started : origin ≤ after) (later : after < last)
    (final : s.Final last) :
    Yields (survey.rule list origin sc) (scanRange (survey.plan sc) (after + 1) last) s
      fun _ t => survey.Covered list t after last ∧ survey.Passable list after last := by
  unfold scanRange
  refine (yields_resolveRange later).bind ?_
  rintro es t moved ⟨sound, complete, passable⟩
  have stems : ∀ e ∈ es, survey.Stems origin t e := by
    intro e member
    obtain ⟨c, qualifies, told, lower, upper⟩ := sound e member
    obtain ⟨b, among, below⟩ := final.mono moved
    exact ⟨c, qualifies, told, UInt64.lt_of_le_of_lt started lower, b, among,
      UInt64.le_trans upper below⟩
  refine (yields_recordAll stems).bind ?_
  intro _ u _ recorded
  refine Yields.pure ⟨?_, passable⟩
  intro c qualifies lower upper
  obtain ⟨e, member, told⟩ := complete c qualifies lower upper
  exact ⟨e, recorded member, told⟩

theorem yields_advance {source target : UInt64} (covered : survey.Covered list s source target)
    (passable : survey.Passable list source target) (final : s.Final target) :
    Yields (survey.rule list origin sc) (askCursor (.advance source target)) s fun _ _ => True := by
  have asked : Yields (survey.rule list origin sc) (ask (.cursor (.advance source target))) s
      fun r _ => ∀ a, r = .ok a → True :=
    Yields.ask (fun t moved _ => ⟨covered.mono moved.events, passable, final.mono moved⟩)
      fun _ _ _ _ _ _ _ _ => trivial
  exact asked.orFail

theorem yields_chunks {sum : Summary} (started : origin ≤ sum.cursor)
    (final : s.Final sum.safeBlock) :
    Yields (survey.rule list origin sc) (chunks (survey.plan sc) sum) s fun _ _ => True := by
  -- the induction is the loop's own, on the blocks that are left to scan
  induction left : sum.safeBlock.toNat - sum.cursor.toNat using Nat.strongRecOn
    generalizing sum s with
  | ind n ih =>
      rw [chunks]
      split
      · rename_i below
        have stopped : Yields (survey.rule list origin sc) (ask .stopRequested) s
            fun _ _ => True :=
          Yields.ask (fun _ _ _ => trivial) fun _ _ _ _ _ _ => trivial
        refine stopped.bind ?_
        intro stop t moved _
        cases stop with
        | true => exact Yields.pure trivial
        | false =>
            have ahead := lt_chunkEnd below (survey.plan sc).chunkSize_pos
            have shorter := toNat_sub_chunkEnd_lt below (survey.plan sc).chunkSize_pos
            rw [left] at shorter
            have final' : t.Final
                (chunkEnd sum.cursor sum.safeBlock (survey.plan sc).chunkSize) := by
              obtain ⟨b, among, upper⟩ := final.mono moved
              exact ⟨b, among, UInt64.le_trans (chunkEnd_le below _) upper⟩
            refine (yields_scanRange started ahead final').bind ?_
            rintro count u moved' ⟨covered, passable⟩
            refine (yields_advance covered passable (final'.mono moved')).bind ?_
            intro advanced v moved'' _
            cases advanced with
            | false => exact Yields.pure trivial
            | true =>
                refine ih _ shorter ?_ ?_ rfl
                · exact UInt64.le_trans started (UInt64.le_of_lt ahead)
                · exact ((final.mono moved).mono moved').mono moved''
      · exact Yields.pure trivial

theorem yields_tick :
    Yields (survey.rule list origin sc) (tick (survey.plan sc)) s fun _ _ => True := by
  have headed : Yields (survey.rule list origin sc) (askChain .latestBlock) s fun latest t =>
      t.Final ((survey.plan sc).safeBlock latest) := by
    have asked : Yields (survey.rule list origin sc) (ask (.chain .latestBlock)) s fun r t =>
        ∀ latest, r = .ok latest → t.Final ((survey.plan sc).safeBlock latest) := by
      refine Yields.ask (fun _ _ _ => trivial) ?_
      rintro t r u _ _ (⟨head, rfl, rfl⟩ | ⟨⟨fault, rfl⟩, -⟩) latest same
      · cases same
        exact ⟨_, List.mem_cons_self, UInt64.le_refl _⟩
      · cases same
    exact asked.orFail
  have placed (s : Shared) : Yields (survey.rule list origin sc) (askCursor .read) s
      fun cursor _ => origin ≤ cursor := by
    have asked : Yields (survey.rule list origin sc) (ask (.cursor .read)) s fun r _ =>
        ∀ cursor, r = .ok cursor → origin ≤ cursor := by
      refine Yields.ask (fun _ _ _ => trivial) ?_
      rintro t r _ _ sound ⟨cursor, outcome | ⟨fault, rfl, -⟩, rfl⟩ block same
      · cases outcome
        cases same
        exact sound.started
      · cases same
    exact asked.orFail
  unfold tick
  refine headed.bind ?_
  intro latest t _ final
  refine (placed t).bind ?_
  intro cursor u moved started
  exact yields_chunks started (final.mono moved)

/-- What scanners have come to is sound, and what they have still to do keeps it so. -/
theorem orderly_of_reachable
    {p : Pool (Scan.interface.named Scanner) Shared (Except Fault Summary)}
    (reached : Pool.Reachable survey.serves survey.Ticks Shared.Happens (.start list origin) p) :
    Pool.Orderly (survey.discipline list origin) p := by
  refine Pool.Reachable.orderly ?_ ?_ (sound_start survey list origin) reached
  · rintro j s ⟨sc, rfl⟩ _
    exact Meets.under yields_tick.done
  · exact fun _ _ sound happens => sound.happens happens

/-- However scanners are interleaved, fail and are dropped, the cursor does not go back, no further
than to a block that one of them took for final, and over no event of a wallet that was watched from
the start before it is recorded. What is recorded is of watched wallets and of final blocks. -/
theorem covered_of_reachable
    {p : Pool (Scan.interface.named Scanner) Shared (Except Fault Summary)}
    (reached : Pool.Reachable survey.serves survey.Ticks Shared.Happens (.start list origin) p) :
    (∀ q, Pool.Step survey.serves survey.Ticks Shared.Happens p q →
      p.state.cursor.block ≤ q.state.cursor.block) ∧
    (p.state.cursor.block = origin ∨ p.state.Final p.state.cursor.block) ∧
    survey.Covered list p.state origin p.state.cursor.block ∧
    ∀ e ∈ p.state.box.events, survey.Stems origin p.state e := by
  have calm : ∀ s t, survey.Sound list origin s → s.Happens t →
      survey.Sound list origin t ∧ s.Grows t := fun _ _ sound happens => sound.happens happens
  have orderly := orderly_of_reachable reached
  have sound := orderly.1
  refine ⟨?_, sound.final, sound.covered, sound.stems⟩
  intro q step
  exact (orderly.moves calm step).cursor

/-- Everything goes through, and the head stands still. -/
def calmly (survey : Survey) (sc : Scanner) (head : UInt64) :
    (c : Scan.Call) → StateM Shared (Scan.Reply c)
  | .chain .latestBlock => fun s =>
    (.ok head, { s with finals := (survey.plan sc).safeBlock head :: s.finals })
  | .chain (.logs first last emitters topics) => fun s =>
    (survey.ledger.answer (.logs first last emitters topics), s)
  | .chain (.succeeded txHash) => fun s => (survey.ledger.answer (.succeeded txHash), s)
  | .chain (.blockTime number) => fun s => (survey.ledger.answer (.blockTime number), s)
  | .watchList c => fun s =>
    ((WatchList.answer c s.watched).1, { s with watched := (WatchList.answer c s.watched).2 })
  | .cursor c => fun s =>
    ((Cursor.answer c s.cursor).1, { s with cursor := (Cursor.answer c s.cursor).2 })
  | .outbox c => fun s => ((Outbox.answer 0 c s.box).1, { s with box := (Outbox.answer 0 c s.box).2 })
  | .knows w => fun s => (decide ((sc.number, w) ∈ s.remembered), s)
  | .remember w => fun s => ((), { s with remembered := (sc.number, w) :: s.remembered })
  | .stopRequested => fun s => (false, s)

theorem answers_calmly (survey : Survey) (sc : Scanner) (head : UInt64) (c : Scan.Call)
    (s : Shared) :
    survey.answers sc c s (survey.calmly sc head c s).1 (survey.calmly sc head c s).2 := by
  cases c with
  | chain c =>
      cases c with
      | latestBlock => exact .inl ⟨head, rfl, rfl⟩
      | logs _ _ _ _ => exact ⟨.inl rfl, rfl⟩
      | succeeded _ => exact ⟨.inl rfl, rfl⟩
      | blockTime _ => exact ⟨.inl rfl, rfl⟩
  | watchList c => exact ⟨_, .inl rfl, rfl⟩
  | cursor c => exact ⟨_, .inl rfl, rfl⟩
  | outbox c => exact ⟨0, _, .inl rfl, rfl⟩
  | knows w => exact ⟨of_decide_eq_true, rfl⟩
  | remember w => rfl
  | stopRequested => rfl

end Survey

/-- A chain with one deposit in block 2. -/
def sampleSurvey : Survey where
  contracts := ⟨Asset.teller, Asset.atomicQueue, Asset.lbtcv.address⟩
  chainId := 1
  ledger := { Ledger.ofLatest 3 with
    logs := [{
      address := Asset.teller
      topics := [EventKind.deposit.topic, .ofNat 1, .ofNat 0x11,
        ⟨Asset.lbtc.address.bits.zeroExtend 256⟩]
      data := List.replicate 128 0
      blockNumber := 2
      txHash := .ofNat 7
      logIndex := 0
      removed := false }] }
  keys := by simp

def sampleList : WatchList :=
  ⟨[⟨(Address.ofNat 0x11).checksummed, 1⟩]⟩

/-- A scanner that takes the head itself for final, and one that lags behind it. -/
def sampleEager : Scanner := ⟨1, 0, 10, by decide⟩

def sampleCareful : Scanner := ⟨2, 1, 1, by decide⟩

/-- The careful one has read the cursor, and so has the eager one after it. -/
def sampleOpening : Program Scan.interface (Except Fault Summary) × Shared :=
  (tick (sampleSurvey.plan sampleCareful)).run.advance (sampleSurvey.calmly sampleCareful 3) 2
    (.start sampleList 1)

def sampleJoining : Program Scan.interface (Except Fault Summary) × Shared :=
  (tick (sampleSurvey.plan sampleEager)).run.advance (sampleSurvey.calmly sampleEager 3) 2
    sampleOpening.2

/-- The careful one goes on to its end, and then the eager one. -/
def sampleLead : Except Fault Summary × Shared :=
  sampleOpening.1.interpret (sampleSurvey.calmly sampleCareful 3) sampleJoining.2

def sampleRace : Except Fault Summary × Shared :=
  sampleJoining.1.interpret (sampleSurvey.calmly sampleEager 3) sampleLead.2

/-- The eager one records the deposit once more, and does not get the cursor past the other. -/
theorem covered_of_reachable_for_two_scanners :
    (sampleLead.1 = .ok ⟨2, 2, 1, 1⟩ ∧ sampleRace.1 = .ok ⟨3, 1, 0, 0⟩ ∧
      sampleRace.2.cursor.block = 2 ∧ sampleRace.2.finals = [3, 2] ∧
        sampleRace.2.box.events.length = 1) ∧
      sampleSurvey.Covered sampleList sampleRace.2 1 2 := by
  have ended : sampleLead.1 = .ok ⟨2, 2, 1, 1⟩ ∧ sampleRace.1 = .ok ⟨3, 1, 0, 0⟩ ∧
      sampleRace.2.cursor.block = 2 ∧ sampleRace.2.finals = [3, 2] ∧
        sampleRace.2.box.events.length = 1 := by decide +kernel
  have careful := sampleSurvey.answers_calmly sampleCareful 3
  have eager := sampleSurvey.answers_calmly sampleEager 3
  have started : Pool.Reachable sampleSurvey.serves sampleSurvey.Ticks Shared.Happens
      (.start sampleList 1)
      ⟨.start sampleList 1, [(tick (sampleSurvey.plan sampleCareful)).run.under sampleCareful,
        (tick (sampleSurvey.plan sampleEager)).run.under sampleEager]⟩ :=
    (Pool.Reachable.start.step (.start _ ⟨sampleEager, rfl⟩)).step (.start _ ⟨sampleCareful, rfl⟩)
  have opened := started.of_advances [] (Program.advances_advance careful 2 _ _).under
  have joined := opened.of_advances [_] (Program.advances_advance eager 2 _ _).under
  have led := joined.of_advances [] (Program.runs_interpret id careful _ _).advances.under
  have raced := led.of_advances [_] (Program.runs_interpret id eager _ _).advances.under
  have covered := (Survey.covered_of_reachable raced).2.2.1
  change sampleSurvey.Covered sampleList sampleRace.2 1 sampleRace.2.cursor.block at covered
  rw [ended.2.2.1] at covered
  exact ⟨ended, covered⟩

end VaultTransfers.Scan
