import VaultTransfers.Proofs.Program.Pool
import VaultTransfers.Proofs.Scan.Qualifying
import VaultTransfers.Proofs.Store.Outbox

/-!
Many scanners on one chain, with one cursor, one outbox and one list of wallets.
Each has its own idea of which blocks are final and goes as far at once as it
likes; any call may fail, and what a store has failed to confirm may have been
done. A scanner has to record no event but one of a block that has been taken for
final, and to move the cursor over no block that it cannot read or whose events
are not recorded; as long as all of them do so, no block is behind the cursor
without its events.
-/

namespace VaultTransfers.Scan

open Session (Ledger)

structure Scanner where
  number : Nat
  finalityOffset : UInt64
  chunkSize : UInt64
  chunkSize_pos : 0 < chunkSize

/-- What scanners have in common. The logs of the chain have keys of their own, except for those
that were taken back. -/
structure Survey where
  contracts : Contracts
  chainId : Int
  ledger : Ledger
  keys : ∀ a ∈ ledger.logs, ∀ b ∈ ledger.logs, a.removed = false → b.removed = false →
    a.key = b.key → a = b

/-- What scanners share. -/
structure Shared where
  watched : WatchList
  /-- Which wallets which scanner remembers. -/
  remembered : List (Nat × Watched)
  cursor : Cursor
  box : Outbox
  /-- The last final blocks that scanners have come to. -/
  finals : List UInt64

namespace Shared

def start (watched : WatchList) (origin : UInt64) : Shared :=
  ⟨watched, [], ⟨origin⟩, .empty, []⟩

/-- A call on a store has the outcome that it should have, or it fails, with or without effect. -/
def Attempt {τ α : Type} (outcome : Except StoreFault α × τ) (before : τ)
    (reply : Except StoreFault α) (after : τ) : Prop :=
  (reply, after) = outcome ∨ ∃ fault, reply = .error fault ∧ (after = before ∨ after = outcome.2)

theorem Attempt.state {τ α : Type} {outcome : Except StoreFault α × τ} {before after : τ}
    {reply : Except StoreFault α} (attempt : Attempt outcome before reply after) :
    after = before ∨ after = outcome.2 := by
  rcases attempt with same | ⟨_, -, none_ | done⟩
  · exact .inr (congrArg Prod.snd same)
  · exact .inl none_
  · exact .inr done

/-- What happens without any scanner: wallets are registered, and publishers deal with rows. -/
inductive Happens : Shared → Shared → Prop
  | register {s : Shared} (w : Watched) : Happens s { s with watched := s.watched.register w }
  | publish {s : Shared} {c : Outbox.Call} (other : ∀ e, c ≠ .record e) (now : Moment) :
      Happens s { s with box := (Outbox.answer now c s.box).2 }

/-- The list of wallets, the cursor, the blocks that are final and the events grow. -/
structure Grows (s t : Shared) : Prop where
  watched : ∀ w, s.watched.contains w = true → t.watched.contains w = true
  cursor : s.cursor.block ≤ t.cursor.block
  finals : s.finals ⊆ t.finals
  events : s.box.events ⊆ t.box.events

theorem Grows.refl (s : Shared) : s.Grows s :=
  ⟨fun _ => id, UInt64.le_refl _, List.Subset.refl _, List.Subset.refl _⟩

theorem Grows.trans {s t u : Shared} (first : s.Grows t) (second : t.Grows u) : s.Grows u where
  watched w listed := second.watched w (first.watched w listed)
  cursor := UInt64.le_trans first.cursor second.cursor
  finals := List.Subset.trans first.finals second.finals
  events := List.Subset.trans first.events second.events

/-- Some scanner has come to take the block for final. -/
def Final (s : Shared) (block : UInt64) : Prop :=
  ∃ b ∈ s.finals, block ≤ b

theorem Final.mono {s t : Shared} {block : UInt64} (final : s.Final block) (grows : s.Grows t) :
    t.Final block := by
  obtain ⟨b, member, upper⟩ := final
  exact ⟨b, grows.finals member, upper⟩

end Shared

namespace Survey

variable (survey : Survey)

def plan (sc : Scanner) : Plan where
  contracts := survey.contracts
  chainId := survey.chainId
  finalityOffset := sc.finalityOffset
  chunkSize := sc.chunkSize
  chunkSize_pos := sc.chunkSize_pos

/-- A log that has not been taken back, with its meaning: an event of a wallet that is on the list,
in a transaction that has succeeded. -/
structure Qualifies (list : WatchList) (c : Candidate) : Prop where
  member : c.log ∈ survey.ledger.logs
  kept : c.log.removed = false
  resolved : c.log.resolve survey.contracts = .ok (.event c.decoded)
  listed : list.contains ⟨c.decoded.wallet, survey.chainId⟩ = true
  succeeded : survey.ledger.statusOf c.log.txHash = .ok

/-- The answers that a scanner may get. The head may be anywhere, and what has been remembered may
be forgotten. -/
def answers (sc : Scanner) : (c : Scan.Call) → Shared → Scan.Reply c → Shared → Prop
  | .chain .latestBlock, s, reply, t =>
    (∃ head, reply = .ok head ∧
        t = { s with finals := (survey.plan sc).safeBlock head :: s.finals }) ∨
      (∃ fault, reply = .error fault) ∧ t = s
  | .chain c, s, reply, t =>
    (reply = survey.ledger.answer c ∨ ∃ fault, reply = .error fault) ∧ t = s
  | .watchList c, s, reply, t => ∃ watched,
    Shared.Attempt (WatchList.answer c s.watched) s.watched reply watched ∧ t = { s with watched }
  | .cursor c, s, reply, t => ∃ cursor,
    Shared.Attempt (Cursor.answer c s.cursor) s.cursor reply cursor ∧ t = { s with cursor }
  | .outbox c, s, reply, t => ∃ now box,
    Shared.Attempt (Outbox.answer now c s.box) s.box reply box ∧ t = { s with box }
  | .knows w, s, reply, t => (reply = true → (sc.number, w) ∈ s.remembered) ∧ t = s
  | .remember w, s, _, t => t = { s with remembered := (sc.number, w) :: s.remembered }
  | .stopRequested, s, _, t => t = s

def serves : Service (Scan.interface.named Scanner) Shared :=
  fun c => survey.answers c.1 c.2

/-- The programs that scanners run: ticks of any of them. -/
def Ticks (p : Program (Scan.interface.named Scanner) (Except Fault Summary)) : Prop :=
  ∃ sc, p = (tick (survey.plan sc)).run.under sc

/-- Where a recorded event comes from: a log from behind `origin`, of a block that has been taken
for final and of a wallet that is watched by now. -/
def Stems (origin : UInt64) (s : Shared) (e : VaultEvent) : Prop :=
  ∃ c, survey.Qualifies s.watched c ∧ survey.ledger.event? c = some e ∧
    origin < c.log.blockNumber ∧ s.Final c.log.blockNumber

/-- The blocks from behind `after` up to `last` are recorded, as far as they are about wallets of
the list. -/
def Covered (list : WatchList) (s : Shared) (after last : UInt64) : Prop :=
  ∀ c, survey.Qualifies list c → after < c.log.blockNumber → c.log.blockNumber ≤ last →
    ∃ e ∈ s.box.events, survey.ledger.event? c = some e

/-- The log is given to those who look for events. -/
structure Selects (log : Log) : Prop where
  member : log ∈ survey.ledger.logs
  kept : log.removed = false
  selected : selects survey.ledger survey.contracts.emitters (EventKind.all.map EventKind.topic) log

/-- The chain knows what has become of the transaction and, if it has succeeded, when. -/
def Known (c : Candidate) : Prop :=
  survey.ledger.statusOf c.log.txHash ≠ .missing ∧
    (survey.ledger.statusOf c.log.txHash = .ok → (survey.ledger.event? c).isSome = true)

/-- The log can be decoded, and what there is to know about it is known if it is about a wallet of
the list. -/
def Legible (list : WatchList) (log : Log) : Prop :=
  ∃ resolution, log.resolve survey.contracts = .ok resolution ∧
    ∀ decoded, resolution = .event decoded →
      list.contains ⟨decoded.wallet, survey.chainId⟩ = true → survey.Known ⟨log, decoded⟩

/-- The logs of the blocks from behind `after` up to `last` can be read. -/
def Passable (list : WatchList) (after last : UInt64) : Prop :=
  ∀ log, survey.Selects log → after < log.blockNumber → log.blockNumber ≤ last →
    survey.Legible list log

/-- What scanners that started behind `origin`, with a list of wallets, keep to together. -/
structure Sound (list : WatchList) (origin : UInt64) (s : Shared) : Prop where
  listed : ∀ w, list.contains w = true → s.watched.contains w = true
  remembered : ∀ e ∈ s.remembered, s.watched.contains e.2 = true
  started : origin ≤ s.cursor.block
  final : s.cursor.block = origin ∨ s.Final s.cursor.block
  stems : ∀ e ∈ s.box.events, survey.Stems origin s e
  covered : survey.Covered list s origin s.cursor.block
  passable : survey.Passable list origin s.cursor.block

/-- The calls that a scanner may make. -/
def Allowed (list : WatchList) (origin : UInt64) : Scan.Call → Shared → Prop
  | .outbox (.record e), s => survey.Stems origin s e
  | .outbox _, _ => False
  | .cursor (.advance source target), s =>
    survey.Covered list s source target ∧ survey.Passable list source target ∧ s.Final target
  | .remember w, s => s.watched.contains w = true
  | _, _ => True

variable {survey} {list : WatchList} {origin : UInt64} {s t : Shared} {c d : Candidate}
  {e : VaultEvent}

theorem Qualifies.mono {list' : WatchList} (qualifies : survey.Qualifies list c)
    (grows : ∀ w, list.contains w = true → list'.contains w = true) :
    survey.Qualifies list' c :=
  { qualifies with listed := grows _ qualifies.listed }

theorem Qualifies.selects (qualifies : survey.Qualifies list c) : survey.Selects c.log :=
  ⟨qualifies.member, qualifies.kept, selects_of_resolve survey.ledger qualifies.resolved⟩

theorem Qualifies.eq_of_key {list' : WatchList} (first : survey.Qualifies list c)
    (second : survey.Qualifies list' d) (same : c.log.key = d.log.key) : c = d := by
  obtain ⟨log, decoded⟩ := c
  obtain ⟨log', decoded'⟩ := d
  obtain rfl := survey.keys log first.member log' second.member first.kept second.kept same
  have meaning := first.resolved.symm.trans second.resolved
  cases meaning
  rfl

theorem key_of_event? {ledger : Ledger} (told : ledger.event? c = some e) : e.key = c.log.key := by
  obtain ⟨time, -, rfl⟩ := Option.map_eq_some_iff.mp told
  rfl

theorem Stems.mono (stems : survey.Stems origin s e) (grows : s.Grows t) :
    survey.Stems origin t e := by
  obtain ⟨c, qualifies, told, behind, final⟩ := stems
  exact ⟨c, qualifies.mono grows.watched, told, behind, final.mono grows⟩

theorem Stems.eq_of_key {e' : VaultEvent} (first : survey.Stems origin s e)
    (second : survey.Stems origin s e') (same : e.key = e'.key) : e = e' := by
  obtain ⟨c, qualifies, told, -⟩ := first
  obtain ⟨d, qualifies', told', -⟩ := second
  rw [key_of_event? told, key_of_event? told'] at same
  obtain rfl := qualifies.eq_of_key qualifies' same
  exact Option.some.inj (told.symm.trans told')

theorem Covered.mono {after last : UInt64} (covered : survey.Covered list s after last)
    (events : s.box.events ⊆ t.box.events) : survey.Covered list t after last := by
  intro c qualifies lower upper
  obtain ⟨e, member, told⟩ := covered c qualifies lower upper
  exact ⟨e, events member, told⟩

theorem Covered.append {after mid last : UInt64} (lower : survey.Covered list s after mid)
    (upper : survey.Covered list s mid last) : survey.Covered list s after last := by
  intro c qualifies above below
  rcases UInt64.le_or_lt c.log.blockNumber mid with first | second
  · exact lower c qualifies above first
  · exact upper c qualifies second below

theorem Passable.append {after mid last : UInt64} (lower : survey.Passable list after mid)
    (upper : survey.Passable list mid last) : survey.Passable list after last := by
  intro log selects above below
  rcases UInt64.le_or_lt log.blockNumber mid with first | second
  · exact lower log selects above first
  · exact upper log selects second below

theorem sound_start (survey : Survey) (list : WatchList) (origin : UInt64) :
    survey.Sound list origin (.start list origin) where
  listed _ listed := listed
  remembered _ member := absurd member List.not_mem_nil
  started := UInt64.le_refl _
  final := .inl rfl
  stems _ member := absurd member List.not_mem_nil
  covered := by
    intro c _ lower upper
    exact absurd lower (UInt64.not_lt.mpr upper)
  passable := by
    intro log _ lower upper
    exact absurd lower (UInt64.not_lt.mpr upper)

/-- Sound states stay sound while the cursor stands still and no event is new. -/
theorem Sound.of_grows (sound : survey.Sound list origin s) (grows : s.Grows t)
    (remembered : ∀ e ∈ t.remembered, t.watched.contains e.2 = true)
    (cursor : t.cursor = s.cursor) (events : t.box.events ⊆ s.box.events) :
    survey.Sound list origin t where
  listed w listed := grows.watched w (sound.listed w listed)
  remembered := remembered
  started := cursor ▸ sound.started
  final := by
    rw [cursor]
    exact sound.final.imp_right fun final => final.mono grows
  stems e member := (sound.stems e (events member)).mono grows
  covered := by
    rw [cursor]
    exact sound.covered.mono grows.events
  passable := cursor ▸ sound.passable

theorem Sound.register (sound : survey.Sound list origin s) (w : Watched) :
    survey.Sound list origin { s with watched := s.watched.register w } ∧
      s.Grows { s with watched := s.watched.register w } := by
  have grows : s.Grows { s with watched := s.watched.register w } :=
    { Shared.Grows.refl s with
      watched := fun v listed => by simp [WatchList.contains_register, listed] }
  refine ⟨sound.of_grows grows ?_ rfl (List.Subset.refl _), grows⟩
  exact fun e member => grows.watched e.2 (sound.remembered e member)

/-- Recording an event that stems from the chain adds it, or finds it there. -/
theorem Sound.record (sound : survey.Sound list origin s) (stems : survey.Stems origin s e) :
    survey.Sound list origin { s with box := s.box.record e } ∧
      s.Grows { s with box := s.box.record e } ∧ e ∈ (s.box.record e).events := by
  have same : ∀ r ∈ s.box.rows, r.event.key = e.key → r.event = e := fun r member key =>
    (sound.stems r.event (List.mem_map_of_mem member)).eq_of_key stems key
  by_cases known : ∃ r ∈ s.box.rows, r.event.key = e.key
  · rw [Outbox.record_of_known same known]
    obtain ⟨r, member, key⟩ := known
    exact ⟨sound, .refl s, same r member key ▸ List.mem_map_of_mem member⟩
  · have new : ∀ r ∈ s.box.rows, r.event.key ≠ e.key := fun r member key => known ⟨r, member, key⟩
    have events := Outbox.events_record_of_new new
    have grows : s.Grows { s with box := s.box.record e } :=
      { Shared.Grows.refl s with events := events ▸ List.subset_append_left _ _ }
    refine ⟨?_, grows, by simp [events]⟩
    refine { sound with
      final := sound.final.imp_right fun final => final.mono grows
      stems := ?_
      covered := sound.covered.mono grows.events }
    intro e' member
    rw [events] at member
    rcases List.mem_append.mp member with old | added
    · exact (sound.stems e' old).mono grows
    · rw [List.mem_singleton.mp added]
      exact stems.mono grows

theorem Sound.advance (sound : survey.Sound list origin s) {target : UInt64}
    (later : s.cursor.block < target) (covered : survey.Covered list s s.cursor.block target)
    (passable : survey.Passable list s.cursor.block target) (final : s.Final target) :
    survey.Sound list origin { s with cursor := ⟨target⟩ } ∧ s.Grows { s with cursor := ⟨target⟩ } :=
  ⟨{ sound with
      started := UInt64.le_trans sound.started (UInt64.le_of_lt later)
      final := .inr final
      covered := sound.covered.append covered
      passable := sound.passable.append passable },
    { Shared.Grows.refl s with cursor := UInt64.le_of_lt later }⟩

theorem answered_chain {sc : Scanner} {c : Chain.Call} {reply : Chain.interface.Reply c}
    (sound : survey.Sound list origin s) (served : survey.answers sc (.chain c) s reply t) :
    survey.Sound list origin t ∧ s.Grows t := by
  have still (same : t = s) : survey.Sound list origin t ∧ s.Grows t := by
    subst same
    exact ⟨sound, .refl t⟩
  cases c with
  | latestBlock =>
      rcases served with ⟨head, -, rfl⟩ | ⟨-, same⟩
      · have grows : s.Grows { s with finals := (survey.plan sc).safeBlock head :: s.finals } :=
          { Shared.Grows.refl s with finals := List.subset_cons_self _ _ }
        exact ⟨sound.of_grows grows sound.remembered rfl (List.Subset.refl _), grows⟩
      · exact still same
  | logs _ _ _ _ => exact still served.2
  | succeeded _ => exact still served.2
  | blockTime _ => exact still served.2

theorem answered_watchList {sc : Scanner} {c : WatchList.Call} {reply : WatchList.interface.Reply c}
    (sound : survey.Sound list origin s) (served : survey.answers sc (.watchList c) s reply t) :
    survey.Sound list origin t ∧ s.Grows t := by
  obtain ⟨watched, attempt, rfl⟩ := served
  rcases attempt.state with rfl | rfl
  · exact ⟨sound, .refl s⟩
  · cases c with
    | register w => exact sound.register w
    | contains w => exact ⟨sound, .refl s⟩

theorem answered_cursor {sc : Scanner} {c : Cursor.Call} {reply : Cursor.interface.Reply c}
    (sound : survey.Sound list origin s) (allowed : survey.Allowed list origin (.cursor c) s)
    (served : survey.answers sc (.cursor c) s reply t) :
    survey.Sound list origin t ∧ s.Grows t := by
  obtain ⟨cursor, attempt, rfl⟩ := served
  rcases attempt.state with rfl | rfl
  · exact ⟨sound, .refl s⟩
  · cases c with
    | read => exact ⟨sound, .refl s⟩
    | advance source target =>
        obtain ⟨covered, passable, final⟩ := allowed
        simp only [Cursor.answer]
        split
        · rename_i admitted
          simp only [Cursor.admits, Bool.and_eq_true, decide_eq_true_eq] at admitted
          obtain ⟨rfl, later⟩ := admitted
          exact sound.advance later covered passable final
        · exact ⟨sound, .refl s⟩

theorem answered_outbox {sc : Scanner} {c : Outbox.Call} {reply : Outbox.interface.Reply c}
    (sound : survey.Sound list origin s) (allowed : survey.Allowed list origin (.outbox c) s)
    (served : survey.answers sc (.outbox c) s reply t) :
    survey.Sound list origin t ∧ s.Grows t := by
  obtain ⟨now, box, attempt, rfl⟩ := served
  rcases attempt.state with rfl | rfl
  · exact ⟨sound, .refl s⟩
  · cases c with
    | record e =>
        obtain ⟨recorded, grows, -⟩ := sound.record allowed
        exact ⟨recorded, grows⟩
    | _ => exact allowed.elim

theorem answered {sc : Scanner} {c : Scan.Call} {reply : Scan.Reply c}
    (sound : survey.Sound list origin s) (allowed : survey.Allowed list origin c s)
    (served : survey.answers sc c s reply t) : survey.Sound list origin t ∧ s.Grows t := by
  cases c with
  | chain c => exact answered_chain sound served
  | watchList c => exact answered_watchList sound served
  | cursor c => exact answered_cursor sound allowed served
  | outbox c => exact answered_outbox sound allowed served
  | knows w =>
      obtain ⟨-, rfl⟩ := served
      exact ⟨sound, .refl _⟩
  | remember w =>
      obtain rfl := served
      have grows : s.Grows { s with remembered := (sc.number, w) :: s.remembered } :=
        ⟨fun _ => id, UInt64.le_refl _, List.Subset.refl _, List.Subset.refl _⟩
      refine ⟨sound.of_grows grows ?_ rfl (List.Subset.refl _), grows⟩
      intro e member
      rcases List.mem_cons.mp member with rfl | old
      · exact allowed
      · exact sound.remembered e old
  | stopRequested =>
      obtain rfl := served
      exact ⟨sound, .refl _⟩

/-- Nor does anything else that happens disturb the scanners. -/
theorem Sound.happens (sound : survey.Sound list origin s) (happens : s.Happens t) :
    survey.Sound list origin t ∧ s.Grows t := by
  cases happens with
  | register w => exact sound.register w
  | @publish c other now =>
      have events := Outbox.events_of_entries (Outbox.entries_answer other now s.box)
      have grows : s.Grows { s with box := (Outbox.answer now c s.box).2 } :=
        { Shared.Grows.refl s with events := events ▸ List.Subset.refl _ }
      exact ⟨sound.of_grows grows sound.remembered rfl (events ▸ List.Subset.refl _), grows⟩

variable (survey list origin) in
def discipline : Discipline (Scan.interface.named Scanner) Shared where
  serve := survey.serves
  good := survey.Sound list origin
  moves := Shared.Grows
  allowed := fun c => survey.Allowed list origin c.2
  moves_refl := .refl
  moves_trans _ _ _ := .trans
  answered _ _ _ _ sound allowed served := answered sound allowed served

end Survey

end VaultTransfers.Scan
