import VaultTransfers.Pipeline.Scan
import VaultTransfers.Proofs.Codec.Date
import VaultTransfers.Proofs.Node.Retries
import VaultTransfers.Proofs.Program.Pool
import VaultTransfers.Proofs.Scan.Tick
import VaultTransfers.Session.World

/-!
What a scanner asks of the outbox: to record events, and nothing else. It marks
no row and claims none, whatever the chain and the stores answer. The dates of
the events are the times of blocks, which nodes count in whole seconds, so that
a clock shows each of them.
-/

namespace VaultTransfers

/-- The answers that nodes give: a block has a time that a clock shows. -/
def Chain.Tells : (c : Chain.Call) → Chain.interface.Reply c → Prop
  | .blockTime _, reply => ∀ time, reply = .ok time → time.OnClock
  | _, _ => True

theorem Node.onClock_of_timeOf {method : String} {seconds : UInt64} {time : Instant}
    (told : timeOf method seconds = .ok time) : time.OnClock := by
  unfold timeOf at told
  split at told
  · rename_i known
    exact Except.ok.inj told ▸ Instant.onClock_of_ofUnix? known
  · cases told

/-- Whatever a node replies, the client makes of it an answer of that kind. -/
theorem Node.tells_verdict (c : Chain.Call) (reply : Node.Reply) :
    Chain.Tells c (Node.verdict c reply) := by
  cases c with
  | blockTime number =>
      intro time told
      rw [verdict] at told
      unfold found at told
      split at told
      · cases told
      · cases told
      · exact onClock_of_timeOf told
  | _ => trivial

theorem Session.Ledger.tells_answer (ledger : Session.Ledger) (c : Chain.Call) :
    Chain.Tells c (ledger.answer c) := by
  cases c with
  | blockTime number =>
      intro time told
      unfold answer at told
      cases known : (ledger.secondsOf number).bind Instant.ofUnix? with
      | none =>
          simp only [known] at told
          cases told
      | some t =>
          simp only [known] at told
          obtain ⟨seconds, -, instant⟩ := Option.bind_eq_some_iff.mp known
          exact Except.ok.inj told ▸ Instant.onClock_of_ofUnix? instant
  | _ => trivial

namespace Scan

/-- A call on the outbox is one that records an event, with a date that a clock shows. -/
def Call.Records : Call → Prop
  | .outbox (.record e) => e.date.OnClock
  | .outbox _ => False
  | _ => True

def Call.recorded? : Call → Option VaultEvent
  | .outbox (.record e) => some e
  | _ => none

/-- The chain answers as nodes do; of the other services, nothing is asked. -/
def Tells : (c : Call) → Reply c → Prop
  | .chain c, reply => Chain.Tells c reply
  | _, _ => True

/-- Of the outbox, the task asks nothing but to record; what it answers is as stated. -/
def OnlyRecords {α : Type} (p : Task α) (facts : α → Prop) : Prop :=
  Program.Asks (I := interface) Call.Records Tells p.run fun r => ∀ a, r = .ok a → facts a

namespace OnlyRecords

variable {α β : Type} {facts : α → Prop} {facts' : β → Prop}

theorem pure {a : α} (holds : facts a) : OnlyRecords (Pure.pure a) facts := by
  rintro b same
  cases same
  exact holds

theorem throw (fault : Fault) : OnlyRecords (throw fault : Task α) facts := by
  rintro b same
  cases same

theorem bind {p : Task α} {f : α → Task β} (first : OnlyRecords p facts)
    (rest : ∀ a, facts a → OnlyRecords (f a) facts') : OnlyRecords (p >>= f) facts' := by
  refine Program.Asks.bind (Program.Asks.mono first ?_)
  intro r told
  cases r with
  | ok a => exact rest a (told a rfl)
  | error fault => exact throw fault

theorem mono {p : Task α} {weaker : α → Prop} (records : OnlyRecords p facts)
    (imp : ∀ a, facts a → weaker a) : OnlyRecords p weaker :=
  Program.Asks.mono records fun _ told a same => imp a (told a same)

theorem asking {c : Call} (records : c.Records) : OnlyRecords (ask c) (Tells c) :=
  ⟨records, fun _ told => pure told⟩

theorem orFail {ε : Type} {fault : ε → Fault} {r : Except ε α} (told : ∀ a, r = .ok a → facts a) :
    OnlyRecords (orFail fault r) facts := by
  cases r with
  | ok a => exact pure (told a rfl)
  | error e => exact throw _

theorem lookUpAll {κ : Type} {ask : κ → Task β} (asked : ∀ k, OnlyRecords (ask k) facts')
    (ks : List κ) : OnlyRecords (lookUpAll ask ks) fun answers => ∀ a ∈ answers, facts' a.2 := by
  induction ks with
  | nil => exact pure (by simp)
  | cons k ks ih =>
      refine (asked k).bind fun b holds => ih.bind fun answers all => pure ?_
      intro a member
      rcases List.mem_cons.mp member with rfl | later
      · exact holds
      · exact all a later

end OnlyRecords

open OnlyRecords (asking)

theorem onlyRecords_askChain (c : Chain.Call) :
    OnlyRecords (askChain c) fun a => Chain.Tells c (.ok a) := by
  refine (asking (c := .chain c) trivial).bind fun reply told => .orFail ?_
  rintro a rfl
  exact told

theorem onlyRecords_askCursor (c : Cursor.Call) : OnlyRecords (askCursor c) fun _ => True :=
  (asking (c := .cursor c) trivial).bind fun _ _ => .orFail fun _ _ => trivial

theorem onlyRecords_askWatchList (c : WatchList.Call) :
    OnlyRecords (askWatchList c) fun _ => True :=
  (asking (c := .watchList c) trivial).bind fun _ _ => .orFail fun _ _ => trivial

theorem onlyRecords_record {e : VaultEvent} (dated : e.date.OnClock) :
    OnlyRecords (askOutbox (.record e)) fun _ => True :=
  (asking (c := .outbox (.record e)) dated).bind fun _ _ => .orFail fun _ _ => trivial

theorem onlyRecords_isWatched (w : Watched) : OnlyRecords (isWatched w) fun _ => True := by
  refine (asking (c := .knows w) trivial).bind ?_
  intro known _
  cases known with
  | true => exact .pure trivial
  | false =>
      refine (onlyRecords_askWatchList _).bind ?_
      intro watched _
      cases watched with
      | true => exact (asking (c := .remember w) trivial).bind fun _ _ => .pure trivial
      | false => exact .pure trivial

theorem onlyRecords_candidates (p : Plan) (logs : List Log) :
    OnlyRecords (candidates p logs) fun _ => True := by
  induction logs with
  | nil => exact .pure trivial
  | cons log logs ih =>
      unfold candidates
      cases log.resolve p.contracts with
      | error fault => exact .throw _
      | ok resolution =>
          cases resolution with
          | skipped reason => exact ih
          | event decoded =>
              refine (onlyRecords_isWatched _).bind ?_
              intro watched _
              cases watched with
              | true => exact ih.bind fun _ _ => .pure trivial
              | false => exact ih

theorem onlyRecords_outcomes (cs : List Candidate) : OnlyRecords (outcomes cs) fun _ => True :=
  (OnlyRecords.lookUpAll (fun txHash => onlyRecords_askChain (.succeeded txHash)) _).mono
    fun _ _ => trivial

theorem onlyRecords_blockTimes (cs : List Candidate) :
    OnlyRecords (blockTimes cs) fun times => ∀ time ∈ times, time.2.OnClock := by
  refine .lookUpAll (fun number => (onlyRecords_askChain (.blockTime number)).mono ?_) _
  exact fun time told => told time rfl

theorem onlyRecords_dated {times : List (UInt64 × Instant)}
    (shown : ∀ time ∈ times, time.2.OnClock) (cs : List Candidate) :
    OnlyRecords (dated times cs) fun es => ∀ e ∈ es, e.date.OnClock := by
  induction cs with
  | nil => exact .pure (by simp)
  | cons c cs ih =>
      unfold dated
      cases known : times.lookup c.log.blockNumber with
      | none => exact .throw _
      | some date =>
          obtain ⟨before, after, rfl, -⟩ := List.lookup_eq_some_iff.mp known
          refine ih.bind fun es all => .pure ?_
          intro e member
          rcases List.mem_cons.mp member with rfl | later
          · exact shown (c.log.blockNumber, date) (by simp)
          · exact all e later

theorem onlyRecords_resolveRange (p : Plan) (first last : UInt64) :
    OnlyRecords (resolveRange p first last) fun es => ∀ e ∈ es, e.date.OnClock := by
  refine (onlyRecords_askChain _).bind fun logs _ => ?_
  refine (onlyRecords_candidates p _).bind fun found _ => ?_
  refine (onlyRecords_outcomes _).bind fun succeeded _ => ?_
  refine (onlyRecords_blockTimes _).bind fun times shown => ?_
  exact onlyRecords_dated shown _

theorem onlyRecords_recordAll {es : List VaultEvent} (shown : ∀ e ∈ es, e.date.OnClock) :
    OnlyRecords (recordAll es) fun _ => True := by
  induction es with
  | nil => exact .pure trivial
  | cons e es ih =>
      refine (onlyRecords_record (shown e List.mem_cons_self)).bind fun _ _ => ?_
      exact ih fun e later => shown e (List.mem_cons_of_mem _ later)

theorem onlyRecords_scanRange (p : Plan) (first last : UInt64) :
    OnlyRecords (scanRange p first last) fun _ => True :=
  (onlyRecords_resolveRange p first last).bind fun _ shown =>
    (onlyRecords_recordAll shown).bind fun _ _ => .pure trivial

theorem onlyRecords_chunks (p : Plan) (s : Summary) : OnlyRecords (chunks p s) fun _ => True := by
  -- the induction is the loop's own, on the blocks that are left to scan
  induction left : s.safeBlock.toNat - s.cursor.toNat using Nat.strongRecOn generalizing s with
  | ind n ih =>
      rw [chunks]
      split
      · rename_i below
        have shorter := toNat_sub_chunkEnd_lt below p.chunkSize_pos
        rw [left] at shorter
        refine (asking (c := .stopRequested) trivial).bind ?_
        intro stop _
        cases stop with
        | true => exact .pure trivial
        | false =>
            refine (onlyRecords_scanRange p _ _).bind fun recorded _ => ?_
            refine (onlyRecords_askCursor _).bind fun advanced _ => ?_
            cases advanced with
            | false => exact .pure trivial
            | true => exact ih _ shorter _ rfl
      · exact .pure trivial

/-- Whatever it is answered, a tick does nothing to the outbox but record events. -/
theorem onlyRecords_tick (p : Plan) : OnlyRecords (tick p) fun _ => True :=
  (onlyRecords_askChain _).bind fun _ _ => (onlyRecords_askCursor _).bind fun _ _ =>
    onlyRecords_chunks p _

end Scan

end VaultTransfers
