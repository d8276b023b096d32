import VaultTransfers.Proofs.Program.Runs
import VaultTransfers.Proofs.Scan.Qualifying

/-!
What the resolution of a range comes to, in whatever order the node gives out the
logs, whatever of the watch list is remembered, and whichever call fails. What is
relied on about the answers is kept apart, so that it can be said once for answers
that are right and for answers that may be anything.
-/

namespace VaultTransfers.Scan

open Program (Settles)

/-- What is said of a reply, and of the state behind it. -/
def Reported {ε α σ : Type} (returns : α → σ → Prop) (fails : ε → σ → Prop) :
    Except ε α → σ → Prop
  | .ok a, t => returns a t
  | .error e, t => fails e t

/-- What is relied on about the answers to the questions that are asked about logs. A state is
`fine` as long as nothing has failed, and is `broken` by the failure of a call. -/
structure Inquiry {σ : Type} (serve : Service Scan.interface σ) where
  fine : σ → Prop
  broken : Fault → σ → Prop
  /-- What may be found out about a wallet. -/
  watches : Watched → Bool → Prop
  succeeds : Word → Bool → Prop
  dates : UInt64 → Instant → Prop
  knows : ∀ w s b t, fine s → serve (.knows w) s b t → fine t ∧ (b = true → watches w true)
  remember : ∀ w s r t, fine s → watches w true → serve (.remember w) s r t → fine t
  contains : ∀ w s r t, fine s → serve (.watchList (.contains w)) s r t →
    Reported (fun b t => fine t ∧ watches w b) (fun e => broken (.store e)) r t
  succeeded : ∀ txHash s r t, fine s → serve (.chain (.succeeded txHash)) s r t →
    Reported (fun b t => fine t ∧ succeeds txHash b) (fun e => broken (.node e)) r t
  blockTime : ∀ number s r t, fine s → serve (.chain (.blockTime number)) s r t →
    Reported (fun time t => fine t ∧ dates number time) (fun e => broken (.node e)) r t

/-- The candidates among the logs, as far as it may be found out which wallets are watched. -/
inductive Picks (watches : Watched → Bool → Prop) (p : Plan) : List Log → List Candidate → Prop
  | nil : Picks watches p [] []
  | skip {log : Log} {logs : List Log} {cs : List Candidate} {reason : SkipReason}
      (resolved : log.resolve p.contracts = .ok (.skipped reason))
      (rest : Picks watches p logs cs) : Picks watches p (log :: logs) cs
  | leave {log : Log} {logs : List Log} {cs : List Candidate} {d : DecodedLog}
      (resolved : log.resolve p.contracts = .ok (.event d))
      (unwatched : watches ⟨d.wallet, p.chainId⟩ false) (rest : Picks watches p logs cs) :
      Picks watches p (log :: logs) cs
  | pick {log : Log} {logs : List Log} {cs : List Candidate} {d : DecodedLog}
      (resolved : log.resolve p.contracts = .ok (.event d))
      (watched : watches ⟨d.wallet, p.chainId⟩ true) (rest : Picks watches p logs cs) :
      Picks watches p (log :: logs) (⟨log, d⟩ :: cs)

/-- The first of the logs that cannot be decoded has that fault. -/
def StopsAt (contracts : Contracts) (logs : List Log) (fault : DecodeFault) : Prop :=
  ∃ before log after, logs = before ++ log :: after ∧
    (∀ other ∈ before, ∃ r, other.resolve contracts = .ok r) ∧ log.resolve contracts = .error fault

/-- The events of candidates, each with a time that may be that of its block. -/
abbrev Dates (dates : UInt64 → Instant → Prop) : List Candidate → List VaultEvent → Prop :=
  List.Forall₂ fun c e => ∃ time, dates c.log.blockNumber time ∧ e = c.log.toEvent c.decoded time

/-- What is done about the logs of a range, once they are in the order of the chain. -/
def resolveAll (p : Plan) (logs : List Log) : Task (List VaultEvent) := do
  let found ← candidates p logs
  let succeeded ← outcomes found
  let kept := found.filter fun c => (succeeded.lookup c.log.txHash).getD false
  dated (← blockTimes kept) kept

theorem resolveRange_eq (p : Plan) (first last : UInt64) :
    resolveRange p first last =
      (do let logs ← askChain (.logs first last p.contracts.emitters
            (EventKind.all.map EventKind.topic))
          resolveAll p (Log.inOrder (logs.filter (!·.removed)))) := rfl

theorem StopsAt.cons {contracts : Contracts} {log : Log} {logs : List Log} {fault : DecodeFault}
    {r : Resolution} (resolved : log.resolve contracts = .ok r)
    (stops : StopsAt contracts logs fault) : StopsAt contracts (log :: logs) fault := by
  obtain ⟨before, bad, after, rfl, fine, garbled⟩ := stops
  exact ⟨log :: before, bad, after, rfl, List.forall_mem_cons.mpr ⟨⟨r, resolved⟩, fine⟩, garbled⟩

theorem StopsAt.not_decoded {contracts : Contracts} {logs : List Log} {fault : DecodeFault}
    (stops : StopsAt contracts logs fault) :
    ¬∀ log ∈ logs, ∃ r, log.resolve contracts = .ok r := by
  obtain ⟨before, bad, after, rfl, -, garbled⟩ := stops
  intro decoded
  obtain ⟨r, resolved⟩ := decoded bad (List.mem_append_right before List.mem_cons_self)
  rw [garbled] at resolved
  cases resolved

theorem Picks.decoded {watches : Watched → Bool → Prop} {p : Plan} {logs : List Log}
    {found : List Candidate} (picks : Picks watches p logs found) :
    ∀ log ∈ logs, ∃ r, log.resolve p.contracts = .ok r := by
  induction picks with
  | nil => simp
  | skip resolved _ ih => exact List.forall_mem_cons.mpr ⟨⟨_, resolved⟩, ih⟩
  | leave resolved _ _ ih => exact List.forall_mem_cons.mpr ⟨⟨_, resolved⟩, ih⟩
  | pick resolved _ _ ih => exact List.forall_mem_cons.mpr ⟨⟨_, resolved⟩, ih⟩

section

variable {σ : Type} {serve : Service Scan.interface σ} {s : σ} {ε α : Type}

theorem settles_orFail {fault : ε → Fault} {p : Task (Except ε α)} {returns : α → σ → Prop}
    {fails : Fault → σ → Prop}
    (asked : Settles serve p s (Reported returns fun e => fails (fault e)) fails) :
    Settles serve (p >>= orFail fault) s returns fails := by
  refine Settles.bind (asked.mono ?_ fun _ _ failed => failed)
  intro r t told
  cases r with
  | ok a => exact Settles.pure told
  | error e => exact Settles.throw told

namespace Inquiry

variable (inq : Inquiry serve)

theorem settles_contains (fine : inq.fine s) (w : Watched) :
    Settles serve (askWatchList (.contains w)) s (fun b t => inq.fine t ∧ inq.watches w b)
      inq.broken :=
  settles_orFail (Settles.perform fun r t served => inq.contains w s r t fine served)

theorem settles_isWatched (fine : inq.fine s) (w : Watched) :
    Settles serve (isWatched w) s (fun b t => inq.fine t ∧ inq.watches w b) inq.broken := by
  unfold isWatched
  refine Settles.bind (Settles.perform fun b t served => ?_)
  obtain ⟨fine', told⟩ := inq.knows w s b t fine served
  cases b with
  | true => exact Settles.pure ⟨fine', told rfl⟩
  | false =>
      refine Settles.bind ((inq.settles_contains fine' w).mono ?_ fun _ _ failed => failed)
      rintro b u ⟨fine'', watches⟩
      cases b with
      | false => exact Settles.pure ⟨fine'', watches⟩
      | true =>
          refine Settles.bind (Settles.perform fun r v served => ?_)
          exact Settles.pure ⟨inq.remember w u r v fine'' watches served, watches⟩

theorem settles_candidates (p : Plan) (logs : List Log) (fine : inq.fine s) :
    Settles serve (candidates p logs) s (fun cs t => inq.fine t ∧ Picks inq.watches p logs cs)
      fun fault t => inq.broken fault t ∨
        inq.fine t ∧ ∃ f, fault = .decode f ∧ StopsAt p.contracts logs f := by
  induction logs generalizing s with
  | nil => exact Settles.pure ⟨fine, .nil⟩
  | cons log logs ih =>
      unfold candidates
      cases resolved : log.resolve p.contracts with
      | error f =>
          exact Settles.throw (.inr ⟨fine, f, rfl, [], log, logs, rfl, by simp, resolved⟩)
      | ok resolution =>
          have later {fault : Fault} {t : σ} (failed : inq.broken fault t ∨
              inq.fine t ∧ ∃ f, fault = .decode f ∧ StopsAt p.contracts logs f) :
              inq.broken fault t ∨
                inq.fine t ∧ ∃ f, fault = .decode f ∧ StopsAt p.contracts (log :: logs) f :=
            failed.imp_right fun ⟨fine, f, same, stops⟩ => ⟨fine, f, same, stops.cons resolved⟩
          cases resolution with
          | skipped reason =>
              refine (ih fine).mono ?_ fun _ _ => later
              exact fun cs t ⟨fine, picks⟩ => ⟨fine, .skip resolved picks⟩
          | event d =>
              refine Settles.bind ((inq.settles_isWatched fine _).mono ?_ fun _ _ => .inl)
              rintro b t ⟨fine', watches⟩
              cases b with
              | false =>
                  refine (ih fine').mono ?_ fun _ _ => later
                  exact fun cs t ⟨fine, picks⟩ => ⟨fine, .leave resolved watches picks⟩
              | true =>
                  refine Settles.bind ((ih fine').mono ?_ fun _ _ => later)
                  exact fun cs t ⟨fine, picks⟩ =>
                    Settles.pure ⟨fine, .pick resolved watches picks⟩

theorem settles_lookUpAll {κ β : Type} {ask : κ → Task β} {facts : κ → β → Prop}
    (asked : ∀ k s, inq.fine s →
      Settles serve (ask k) s (fun b t => inq.fine t ∧ facts k b) inq.broken)
    (ks : List κ) (fine : inq.fine s) :
    Settles serve (lookUpAll ask ks) s (fun answers t => inq.fine t ∧
      answers.map Prod.fst = ks ∧ ∀ a ∈ answers, facts a.1 a.2) inq.broken := by
  induction ks generalizing s with
  | nil => exact Settles.pure ⟨fine, rfl, by simp⟩
  | cons k ks ih =>
      refine Settles.bind ((asked k s fine).mono ?_ fun _ _ failed => failed)
      rintro b t ⟨fine', told⟩
      refine Settles.bind ((ih fine').mono ?_ fun _ _ failed => failed)
      rintro answers u ⟨fine'', rfl, all⟩
      exact Settles.pure ⟨fine'', rfl, List.forall_mem_cons.mpr ⟨told, all⟩⟩

theorem settles_outcomes (cs : List Candidate) (fine : inq.fine s) :
    Settles serve (outcomes cs) s (fun answers t => inq.fine t ∧ ∀ c ∈ cs, ∃ b,
      answers.lookup c.log.txHash = some b ∧ inq.succeeds c.log.txHash b) inq.broken := by
  have asked (txHash : Word) (s : σ) (fine : inq.fine s) :
      Settles serve (askChain (.succeeded txHash)) s
        (fun b t => inq.fine t ∧ inq.succeeds txHash b) inq.broken :=
    settles_orFail (Settles.perform fun r t served => inq.succeeded txHash s r t fine served)
  refine (inq.settles_lookUpAll asked _ fine).mono ?_ fun _ _ failed => failed
  rintro answers t ⟨fine', keys, all⟩
  exact ⟨fine', fun c member => lookup_of_mem _ all (keys ▸ mem_txHashes member)⟩

theorem settles_blockTimes (cs : List Candidate) (fine : inq.fine s) :
    Settles serve (blockTimes cs) s (fun answers t => inq.fine t ∧ ∀ c ∈ cs, ∃ time,
      answers.lookup c.log.blockNumber = some time ∧ inq.dates c.log.blockNumber time)
      inq.broken := by
  have asked (number : UInt64) (s : σ) (fine : inq.fine s) :
      Settles serve (askChain (.blockTime number)) s
        (fun time t => inq.fine t ∧ inq.dates number time) inq.broken :=
    settles_orFail (Settles.perform fun r t served => inq.blockTime number s r t fine served)
  refine (inq.settles_lookUpAll asked _ fine).mono ?_ fun _ _ failed => failed
  rintro answers t ⟨fine', keys, all⟩
  exact ⟨fine', fun c member => lookup_of_mem _ all (keys ▸ mem_blockNumbers member)⟩

theorem settles_dated {times : List (UInt64 × Instant)} {cs : List Candidate}
    (known : ∀ c ∈ cs, ∃ time, times.lookup c.log.blockNumber = some time ∧
      inq.dates c.log.blockNumber time) :
    Settles serve (dated times cs) s (fun es t => t = s ∧ Dates inq.dates cs es)
      fun _ _ => False := by
  induction cs with
  | nil => exact Settles.pure ⟨rfl, .nil⟩
  | cons c cs ih =>
      obtain ⟨⟨time, found, dates⟩, known'⟩ := List.forall_mem_cons.mp known
      unfold dated
      simp only [found]
      refine Settles.bind ((ih known').mono ?_ fun _ _ failed => failed)
      rintro es t ⟨rfl, rest⟩
      exact Settles.pure ⟨rfl, .cons ⟨time, dates, rfl⟩ rest⟩

/-- Logs are resolved as far as the answers allow, unless a call fails or a log cannot be
decoded. -/
theorem settles_resolveAll (p : Plan) (logs : List Log) (fine : inq.fine s) :
    Settles serve (resolveAll p logs) s
      (fun es t => inq.fine t ∧ ∃ found, Picks inq.watches p logs found ∧
        ∃ outcome : Word → Bool, (∀ c ∈ found, inq.succeeds c.log.txHash (outcome c.log.txHash)) ∧
          Dates inq.dates (found.filter fun c => outcome c.log.txHash) es)
      fun fault t => inq.broken fault t ∨
        inq.fine t ∧ ∃ f, fault = .decode f ∧ StopsAt p.contracts logs f := by
  refine Settles.bind ((inq.settles_candidates p logs fine).mono ?_ fun _ _ failed => failed)
  rintro found t ⟨fine, picks⟩
  refine Settles.bind ((inq.settles_outcomes found fine).mono ?_ fun _ _ => .inl)
  rintro succeeded u ⟨fine, told⟩
  refine Settles.bind ((inq.settles_blockTimes _ fine).mono ?_ fun _ _ => .inl)
  rintro times v ⟨fine, dates⟩
  refine (inq.settles_dated dates).mono ?_ fun _ _ => False.elim
  rintro es v ⟨rfl, all⟩
  refine ⟨fine, found, picks, fun txHash => (succeeded.lookup txHash).getD false, ?_, all⟩
  intro c member
  obtain ⟨b, answer, succeeds⟩ := told c member
  simp only [answer, Option.getD_some]
  exact succeeds

end Inquiry

end

/-- What there is to be found out about a range: its logs, and the right answers to the questions
that are asked about them. -/
structure Facts where
  logs : List Log
  watched : WatchList
  succeeded : Word → Bool
  timeOf : UInt64 → Instant

/-- What is remembered of the watch list, and the fault of the call that has failed. -/
structure Notes where
  remembered : List Watched
  failed : Option Fault

/-- A reply that is right, or a failure that is noted. -/
def Notes.Told {ε α : Type} (fault : ε → Fault) (right : α → Prop) (s : Notes)
    (reply : Except ε α) (t : Notes) : Prop :=
  (∃ a, right a ∧ reply = .ok a ∧ t = s) ∨
    ∃ e, reply = .error e ∧ t = { s with failed := some (fault e) }

namespace Facts

/-- The node gives out the logs in any order. What is remembered may be forgotten, and every call
that can fail may do so. -/
def serving (facts : Facts) : Service Scan.interface Notes := fun c s reply t =>
  match c with
  | .chain (.logs _ _ _ _) => Notes.Told .node (fun logs => logs.Perm facts.logs) s reply t
  | .chain (.succeeded txHash) => Notes.Told .node (· = facts.succeeded txHash) s reply t
  | .chain (.blockTime number) => Notes.Told .node (· = facts.timeOf number) s reply t
  | .watchList (.contains w) => Notes.Told .store (· = facts.watched.contains w) s reply t
  | .knows w => (reply = true → w ∈ s.remembered) ∧ t = s
  | .remember w => t = { s with remembered := w :: s.remembered }
  | _ => t = s

/-- Nothing fails, and the logs are given out as they stand. -/
def calmly (facts : Facts) : (c : Scan.Call) → StateM Notes (Scan.Reply c)
  | .chain .latestBlock => fun s => (.error (.reported 0 ""), s)
  | .chain (.logs _ _ _ _) => fun s => (.ok facts.logs, s)
  | .chain (.succeeded txHash) => fun s => (.ok (facts.succeeded txHash), s)
  | .chain (.blockTime number) => fun s => (.ok (facts.timeOf number), s)
  | .watchList (.contains w) => fun s => (.ok (facts.watched.contains w), s)
  | .watchList (.register _) | .cursor _ | .outbox _ => fun s => (.error (.outOfRange 0), s)
  | .knows w => fun s => (decide (w ∈ s.remembered), s)
  | .remember w => fun s => ((), { s with remembered := w :: s.remembered })
  | .stopRequested => fun s => (false, s)

/-- The event that a log stands for, if its wallet is watched and its transaction has succeeded. -/
def event? (facts : Facts) (p : Plan) (log : Log) : Option VaultEvent :=
  match log.resolve p.contracts with
  | .ok (.event d) =>
    if facts.watched.contains ⟨d.wallet, p.chainId⟩ && facts.succeeded log.txHash then
      some (log.toEvent d (facts.timeOf log.blockNumber))
    else none
  | _ => none

/-- What a range has to be resolved to when no call fails: the events of the logs that no
reorganisation has taken back, in the order of the chain, or the fault of the first of these logs
that cannot be decoded. -/
inductive Resolves (facts : Facts) (p : Plan) : Except Fault (List VaultEvent) → Prop
  | events (logs : List Log) (same : logs.Perm (facts.logs.filter (!·.removed)))
      (order : logs.Pairwise fun a b => a.position.before b.position = true)
      (decoded : ∀ log ∈ logs, ∃ r, log.resolve p.contracts = .ok r) :
      Resolves facts p (.ok (logs.filterMap (facts.event? p)))
  | garbled {log : Log} {f : DecodeFault} (member : log ∈ facts.logs) (kept : log.removed = false)
      (garbled : log.resolve p.contracts = .error f)
      (first : ∀ other ∈ facts.logs, other.removed = false →
        other.position.before log.position = true → ∃ r, other.resolve p.contracts = .ok r) :
      Resolves facts p (.error (.decode f))

variable {facts : Facts} {p : Plan}

/-- What is relied on while nothing has failed. -/
def inquiry (facts : Facts) : Inquiry facts.serving where
  fine s := s.failed = none ∧ ∀ w ∈ s.remembered, facts.watched.contains w = true
  broken fault s := s.failed = some fault
  watches w b := b = facts.watched.contains w
  succeeds txHash b := b = facts.succeeded txHash
  dates number time := time = facts.timeOf number
  knows := by
    rintro w s b t fine ⟨told, rfl⟩
    exact ⟨fine, fun known => (fine.2 w (told known)).symm⟩
  remember := by
    rintro w s r t fine watched rfl
    exact ⟨fine.1, List.forall_mem_cons.mpr ⟨watched.symm, fine.2⟩⟩
  contains := by
    rintro w s r t fine (⟨b, right, rfl, rfl⟩ | ⟨e, rfl, rfl⟩)
    · exact ⟨fine, right⟩
    · rfl
  succeeded := by
    rintro txHash s r t fine (⟨b, right, rfl, rfl⟩ | ⟨e, rfl, rfl⟩)
    · exact ⟨fine, right⟩
    · rfl
  blockTime := by
    rintro number s r t fine (⟨time, right, rfl, rfl⟩ | ⟨e, rfl, rfl⟩)
    · exact ⟨fine, right⟩
    · rfl

theorem map_filter_of_picks {logs : List Log} {found : List Candidate}
    (picks : Picks facts.inquiry.watches p logs found) :
    (found.filter fun c => facts.succeeded c.log.txHash).map
        (fun c => c.log.toEvent c.decoded (facts.timeOf c.log.blockNumber)) =
      logs.filterMap (facts.event? p) := by
  induction picks with
  | nil => rfl
  | skip resolved _ ih =>
      rw [ih, List.filterMap_cons_none]
      simp only [event?, resolved]
  | leave resolved unwatched _ ih =>
      rw [ih, List.filterMap_cons_none]
      simp only [event?, resolved, ← show _ = _ from unwatched, Bool.false_and, Bool.false_eq_true,
        if_false]
  | @pick log _ _ d resolved watched _ ih =>
      have event : facts.event? p log = if facts.succeeded log.txHash then
          some (log.toEvent d (facts.timeOf log.blockNumber)) else none := by
        simp only [event?, resolved, ← show _ = _ from watched, Bool.true_and]
      cases succeeded : facts.succeeded log.txHash with
      | true =>
          rw [List.filterMap_cons_some (event.trans (if_pos succeeded)), ← ih]
          simp only [List.filter_cons, succeeded, if_true, List.map_cons]
      | false =>
          rw [List.filterMap_cons_none (event.trans (if_neg (by simp [succeeded]))), ← ih]
          simp only [List.filter_cons, succeeded, Bool.false_eq_true, if_false]

theorem eq_map_of_dates {cs : List Candidate} {es : List VaultEvent}
    (dates : Dates facts.inquiry.dates cs es) :
    es = cs.map fun c => c.log.toEvent c.decoded (facts.timeOf c.log.blockNumber) := by
  induction dates with
  | nil => rfl
  | cons dated _ ih =>
      obtain ⟨_, rfl, rfl⟩ := dated
      rw [List.map_cons, ih]

/-- There is one result that the range has to be resolved to. -/
theorem Resolves.unique (positions : (facts.logs.map Log.position).Nodup)
    {r r' : Except Fault (List VaultEvent)} (resolves : facts.Resolves p r)
    (resolves' : facts.Resolves p r') : r = r' := by
  have apart {logs : List Log} (same : logs.Perm (facts.logs.filter (!·.removed)))
      (decoded : ∀ log ∈ logs, ∃ r, log.resolve p.contracts = .ok r) {log : Log} {f : DecodeFault}
      (member : log ∈ facts.logs) (kept : log.removed = false)
      (garbled : log.resolve p.contracts = .error f) : False := by
    have among : log ∈ facts.logs.filter (!·.removed) :=
      List.mem_filter.mpr ⟨member, by simp [kept]⟩
    obtain ⟨r, resolved⟩ := decoded log (same.mem_iff.mpr among)
    rw [garbled] at resolved
    cases resolved
  cases resolves with
  | events logs same order decoded =>
      cases resolves' with
      | events logs' same' order' decoded' =>
          rw [Log.eq_of_perm (same.trans same'.symm) order order']
      | garbled member kept garbled first => exact (apart same decoded member kept garbled).elim
  | @garbled log f member kept garbled first =>
      cases resolves' with
      | events logs' same' order' decoded' => exact (apart same' decoded' member kept garbled).elim
      | @garbled log' f' member' kept' garbled' first' =>
          by_cases same : log.position = log'.position
          · obtain rfl := List.inj_on_of_nodup_map positions member member' same
            rw [garbled] at garbled'
            cases garbled'
            rfl
          · -- of two logs, one comes first in the order of the chain
            have total := Position.notAfter_total log.position log'.position
            rcases (Bool.or_eq_true _ _).mp total with order | order
            · obtain ⟨r, resolved⟩ :=
                first' log member kept (Position.before_of_notAfter order same)
              rw [garbled] at resolved
              cases resolved
            · obtain ⟨r, resolved⟩ :=
                first log' member' kept' (Position.before_of_notAfter order (Ne.symm same))
              rw [garbled'] at resolved
              cases resolved

theorem Resolves.of_stopsAt {logs : List Log} (same : logs.Perm (facts.logs.filter (!·.removed)))
    (order : logs.Pairwise fun a b => a.position.before b.position = true) {f : DecodeFault}
    (stops : StopsAt p.contracts logs f) : facts.Resolves p (.error (.decode f)) := by
  obtain ⟨before, log, after, rfl, decoded, garbled⟩ := stops
  have among {other : Log} : other ∈ before ++ log :: after ↔
      other ∈ facts.logs ∧ other.removed = false := by
    rw [same.mem_iff, List.mem_filter, Bool.not_eq_true']
  obtain ⟨member, kept⟩ := among.mp (List.mem_append_right before List.mem_cons_self)
  refine .garbled member kept garbled ?_
  intro other other_mem other_kept earlier
  rcases List.mem_append.mp (among.mpr ⟨other_mem, other_kept⟩) with ahead | behind
  · exact decoded other ahead
  · rcases List.mem_cons.mp behind with rfl | later
    · rw [Position.not_before_self] at earlier
      cases earlier
    · have order := (List.pairwise_append.mp order).2.1
      have later := (List.pairwise_cons.mp order).1 other later
      rw [Position.not_before_of_before later] at earlier
      cases earlier

/-- It may be that nothing fails. -/
theorem exists_runs {α : Type} (facts : Facts) (q : Program Scan.interface α) {s : Notes}
    (working : s.failed = none) :
    ∃ a t, Program.Runs facts.serving q s a t ∧ t.failed = none := by
  let quiet (s : Notes) : Prop := s.failed = none
  have admitted (c : Scan.Call) (s : Notes) (working : quiet s) :
      quiet (facts.calmly c s).2 ∧
        facts.serving c s (facts.calmly c s).1 (facts.calmly c s).2 := by
    cases c with
    | chain c =>
        cases c with
        | latestBlock => exact ⟨working, rfl⟩
        | logs _ _ _ _ => exact ⟨working, .inl ⟨_, .refl _, rfl, rfl⟩⟩
        | succeeded _ => exact ⟨working, .inl ⟨_, rfl, rfl, rfl⟩⟩
        | blockTime _ => exact ⟨working, .inl ⟨_, rfl, rfl, rfl⟩⟩
    | watchList c =>
        cases c with
        | register _ => exact ⟨working, rfl⟩
        | contains _ => exact ⟨working, .inl ⟨_, rfl, rfl, rfl⟩⟩
    | knows w => exact ⟨working, of_decide_eq_true, rfl⟩
    | _ => exact ⟨working, rfl⟩
  have working : quiet s := working
  obtain ⟨still, run⟩ := Program.runs_interpret_of_holds id admitted q working
  exact ⟨_, _, run, still⟩

/-- What the scanner makes of the logs that it is given. -/
theorem inOrder_given (positions : (facts.logs.map Log.position).Nodup) {logs : List Log}
    (perm : logs.Perm facts.logs) :
    (Log.inOrder (logs.filter (!·.removed))).Perm (facts.logs.filter (!·.removed)) ∧
      (Log.inOrder (logs.filter (!·.removed))).Pairwise fun a b =>
        a.position.before b.position = true := by
  have kept : ((logs.filter (!·.removed)).map Log.position).Nodup :=
    ((perm.map _).nodup_iff.mpr positions).sublist (List.filter_sublist.map Log.position)
  exact ⟨(List.mergeSort_perm _ _).trans (perm.filter _), Log.pairwise_inOrder kept⟩

/-- A range whose logs are given out in any order is resolved as it has to be. -/
theorem settles_resolveRange (positions : (facts.logs.map Log.position).Nodup) (first last : UInt64)
    {s : Notes} (fine : facts.inquiry.fine s) :
    Settles facts.serving (resolveRange p first last) s
      (fun es t => t.failed = none ∧ facts.Resolves p (.ok es))
      fun fault t => t.failed = some fault ∨ t.failed = none ∧ facts.Resolves p (.error fault) := by
  rw [resolveRange_eq]
  refine Settles.bind (settles_orFail (Settles.perform ?_))
  rintro reply t (⟨logs, perm, rfl, rfl⟩ | ⟨e, rfl, rfl⟩)
  swap
  · exact .inl rfl
  obtain ⟨same, order⟩ := inOrder_given positions perm
  refine (facts.inquiry.settles_resolveAll p _ fine).mono ?_ ?_
  · rintro es t ⟨⟨working, -⟩, found, picks, outcome, right, dates⟩
    refine ⟨working, ?_⟩
    rw [eq_map_of_dates dates, List.filter_congr right, map_filter_of_picks picks]
    exact .events _ same order picks.decoded
  · rintro fault t (failed | ⟨⟨working, -⟩, f, rfl, stops⟩)
    · exact .inl failed
    · exact .inr ⟨working, .of_stopsAt same order stops⟩

/-- Whatever order the node gives out the logs in, the scanner goes on in the same way. It ends with
the fault of the call that fails, if one does, and else with the one result that the range has to be
resolved to. -/
theorem resolved_in_any_order {facts : Facts} (positions : (facts.logs.map Log.position).Nodup)
    (p : Plan) (first last : UInt64) {s : Notes} (working : s.failed = none)
    (remembered : ∀ w ∈ s.remembered, facts.watched.contains w = true) :
    (∃ next, (resolveRange p first last).run = .call (.chain (.logs first last p.contracts.emitters
          (EventKind.all.map EventKind.topic))) next ∧
        ∀ logs, logs.Perm facts.logs → next (.ok logs) = next (.ok facts.logs)) ∧
      (∃ reply t, Program.Runs facts.serving (resolveRange p first last).run s reply t ∧
        t.failed = none) ∧
      ∀ reply t, Program.Runs facts.serving (resolveRange p first last).run s reply t →
        (∀ fault, t.failed = some fault → reply = .error fault) ∧
          (t.failed = none → ∀ r, facts.Resolves p r ↔ r = reply) := by
  refine ⟨?_, exists_runs facts _ working, ?_⟩
  · refine ⟨_, rfl, ?_⟩
    intro logs perm
    obtain ⟨given, order⟩ := inOrder_given positions perm
    obtain ⟨given', order'⟩ := inOrder_given positions (.refl facts.logs)
    have same : Log.inOrder (logs.filter (!·.removed)) =
        Log.inOrder (facts.logs.filter (!·.removed)) :=
      Log.eq_of_perm (given.trans given'.symm) order order'
    change (resolveAll p (Log.inOrder (logs.filter (!·.removed)))).run = _
    rw [same]
    rfl
  · intro reply t run
    have resolved {r : Except Fault (List VaultEvent)} (resolves : facts.Resolves p r)
        (r' : Except Fault (List VaultEvent)) : facts.Resolves p r' ↔ r' = r :=
      ⟨fun other => other.unique positions resolves, fun same => same ▸ resolves⟩
    obtain ⟨well, ill⟩ :=
      settles_resolveRange positions first last ⟨working, remembered⟩ (p := p)
    cases reply with
    | ok es =>
        obtain ⟨quiet, resolves⟩ := well es t run
        refine ⟨?_, fun _ => resolved resolves⟩
        intro fault failed
        rw [quiet] at failed
        cases failed
    | error fault =>
        rcases ill fault t run with failed | ⟨quiet, resolves⟩
        · refine ⟨?_, ?_⟩
          · intro other same
            rw [failed] at same
            cases same
            rfl
          · intro quiet
            rw [failed] at quiet
            cases quiet
        · refine ⟨?_, fun _ => resolved resolves⟩
          intro other failed
          rw [quiet] at failed
          cases failed

end Facts

def sampleDeposit (wallet : Nat) (block : UInt64) : Log where
  address := Asset.teller
  topics := [EventKind.deposit.topic, .ofNat 1, .ofNat wallet,
    ⟨Asset.lbtc.address.bits.zeroExtend 256⟩]
  data := List.replicate 128 0
  blockNumber := block
  txHash := .ofNat wallet
  logIndex := 0
  removed := false

def samplePlan : Plan where
  contracts := ⟨Asset.teller, Asset.atomicQueue, Asset.lbtcv.address⟩
  chainId := 1
  finalityOffset := 0
  chunkSize := 5
  chunkSize_pos := by decide

/-- Deposits of two watched wallets and of another one, given out from the last block on, and one
that a reorganisation has taken back. -/
def sampleFacts : Facts where
  logs := [sampleDeposit 0x12 5, { sampleDeposit 0x12 4 with removed := true },
    sampleDeposit 0x13 3, sampleDeposit 0x11 2]
  watched := ⟨[⟨"0x0000000000000000000000000000000000000011", 1⟩,
    ⟨"0x0000000000000000000000000000000000000012", 1⟩]⟩
  succeeded _ := true
  timeOf number := .ofUnixMillis (1000 * number.toNat)

theorem resolved_in_any_order_of_sample_deposits :
    ∃ es t,
      Program.Runs sampleFacts.serving (resolveRange samplePlan 1 6).run ⟨[], none⟩ (.ok es) t ∧
        es.map (fun e => (e.blockNumber, e.date)) =
          [(2, .ofUnixMillis 2000), (5, .ofUnixMillis 5000)] := by
  have positions : (sampleFacts.logs.map Log.position).Nodup := by decide +kernel
  obtain ⟨-, ⟨reply, t, run, quiet⟩, resolved⟩ :=
    Facts.resolved_in_any_order positions samplePlan 1 6 (s := ⟨[], none⟩) rfl (by simp)
  have decoded : ∀ log ∈ [sampleDeposit 0x11 2, sampleDeposit 0x13 3, sampleDeposit 0x12 5],
      (log.resolve samplePlan.contracts).toOption.isSome = true := by decide +kernel
  have events : sampleFacts.Resolves samplePlan (.ok ([sampleDeposit 0x11 2, sampleDeposit 0x13 3,
      sampleDeposit 0x12 5].filterMap (sampleFacts.event? samplePlan))) := by
    have kept : sampleFacts.logs.filter (!·.removed) =
        [sampleDeposit 0x12 5, sampleDeposit 0x13 3, sampleDeposit 0x11 2] := rfl
    refine .events _ ?_ (by decide +kernel) ?_
    · rw [kept]
      exact List.reverse_perm [sampleDeposit 0x12 5, sampleDeposit 0x13 3, sampleDeposit 0x11 2]
    · intro log member
      have known := decoded log member
      cases resolved : log.resolve samplePlan.contracts with
      | ok r => exact ⟨r, rfl⟩
      | error f =>
          rw [resolved] at known
          cases known
  obtain rfl := ((resolved reply t run).2 quiet _).mp events
  exact ⟨_, t, run, by decide +kernel⟩

end VaultTransfers.Scan
