import VaultTransfers.Proofs.Program.Runs
import VaultTransfers.Proofs.Scan.Qualifying

/-!
What a scanner finds in a range of blocks. Whatever fails and however far the
head has moved on meanwhile, a range that is resolved at all is resolved to the
events that the chain has there, and looking for them changes nothing that is
stored.
-/

namespace VaultTransfers.Scan

open Program (Ends)

/-- What a scanner works on besides its source. -/
structure Site where
  latest : UInt64
  watched : WatchList
  remembered : List Watched
  cursor : Cursor
  box : Outbox

namespace Source

variable (src : Source)

def ledgerAt (latest : UInt64) : Session.Ledger :=
  { src.ledger with latest := latest }

/-- The answers that a scanner may get with the head where it is; any call that can fail may do so
without effect. -/
def answers : (c : Scan.Call) → Site → Scan.Reply c → Site → Prop
  | .chain c, s, reply, t =>
    (reply = (src.ledgerAt s.latest).answer c ∨ ∃ fault, reply = .error fault) ∧ t = s
  | .watchList c, s, reply, t =>
    reply = (WatchList.answer c s.watched).1 ∧ t = { s with watched := (WatchList.answer c s.watched).2 } ∨
      (∃ fault, reply = .error fault) ∧ t = s
  | .cursor c, s, reply, t =>
    reply = (Cursor.answer c s.cursor).1 ∧ t = { s with cursor := (Cursor.answer c s.cursor).2 } ∨
      (∃ fault, reply = .error fault) ∧ t = s
  | .outbox c, s, reply, t =>
    (∃ now, reply = (Outbox.answer now c s.box).1 ∧
        t = { s with box := (Outbox.answer now c s.box).2 }) ∨
      (∃ fault, reply = .error fault) ∧ t = s
  | .knows w, s, reply, t => (reply = true → w ∈ s.remembered) ∧ t = s
  | .remember w, s, _, t => t = { s with remembered := w :: s.remembered }
  | .stopRequested, s, _, t => t = s

/-- Before each answer the head may move on. -/
def serves : Service Scan.interface Site := fun c s reply t =>
  ∃ latest, s.latest ≤ latest ∧ src.answers c { s with latest := latest } reply t

/-- The site is watched as the source says, and the scanner remembers nothing else. -/
structure Ready (s : Site) : Prop where
  watched : s.watched = src.watched
  remembered : ∀ w ∈ s.remembered, src.watched.contains w = true

end Source

structure Site.Looks (s t : Site) : Prop where
  latest : s.latest ≤ t.latest
  cursor : t.cursor = s.cursor
  box : t.box = s.box

namespace Site.Looks

theorem refl (s : Site) : s.Looks s := ⟨UInt64.le_refl _, rfl, rfl⟩

theorem trans {s t u : Site} (first : s.Looks t) (second : t.Looks u) : s.Looks u where
  latest := UInt64.le_trans first.latest second.latest
  cursor := second.cursor.trans first.cursor
  box := second.box.trans first.box

end Site.Looks

/-- From any ready site the task only looks around, and what it answers is as stated. -/
def Looking (src : Source) {α : Type} (p : Task α) (facts : α → Prop) : Prop :=
  ∀ s, src.Ready s → Ends src.serves p.run s fun r t =>
    s.Looks t ∧ src.Ready t ∧ ∀ a, r = .ok a → facts a

namespace Looking

variable {src : Source} {α β : Type} {facts : α → Prop} {facts' : β → Prop}

theorem pure {a : α} (holds : facts a) : Looking src (Pure.pure a) facts := by
  intro s ready
  apply Ends.pure
  refine ⟨.refl s, ready, ?_⟩
  rintro b same
  cases same
  exact holds

theorem throw (fault : Fault) : Looking src (throw fault : Task α) facts := by
  intro s ready
  apply Ends.pure
  refine ⟨.refl s, ready, ?_⟩
  rintro b same
  cases same

theorem bind {p : Task α} {f : α → Task β} (first : Looking src p facts)
    (rest : ∀ a, facts a → Looking src (f a) facts') : Looking src (p >>= f) facts' := by
  intro s ready
  refine Ends.except_bind ((first s ready).mono ?_)
  rintro r t ⟨looks, ready', told⟩
  cases r with
  | ok a =>
      refine (rest a (told a rfl) t ready').mono ?_
      rintro r u ⟨looks', ready'', told'⟩
      exact ⟨looks.trans looks', ready'', told'⟩
  | error fault =>
      refine ⟨looks, ready', ?_⟩
      rintro b same
      cases same

theorem mono {p : Task α} {weaker : α → Prop} (looking : Looking src p facts)
    (imp : ∀ a, facts a → weaker a) : Looking src p weaker := by
  intro s ready
  refine (looking s ready).mono ?_
  rintro r t ⟨looks, ready', told⟩
  exact ⟨looks, ready', fun a same => imp a (told a same)⟩

theorem ask {c : Scan.Call} {facts : Scan.Reply c → Prop}
    (served : ∀ s r t, src.Ready s → src.answers c s r t →
      t.cursor = s.cursor ∧ t.box = s.box ∧ t.latest = s.latest ∧ src.Ready t ∧ facts r) :
    Looking src (ask c) facts := by
  intro s ready
  refine Ends.bind (Ends.perform ?_)
  rintro r t ⟨latest, grown, answered⟩
  obtain ⟨cursor, box, same, ready', told⟩ :=
    served { s with latest := latest } r t ⟨ready.watched, ready.remembered⟩ answered
  apply Ends.pure
  refine ⟨⟨same ▸ grown, cursor, box⟩, ready', ?_⟩
  rintro a same
  cases same
  exact told

end Looking

section

variable {src : Source}

theorem ledgerAt_answer {c : Chain.Call} (other : c ≠ .latestBlock) (latest : UInt64) :
    (src.ledgerAt latest).answer c = src.ledger.answer c := by
  cases c with
  | latestBlock => exact absurd rfl other
  | logs _ _ _ _ => rfl
  | succeeded _ => rfl
  | blockTime _ => rfl

/-- Who asks the chain only, looks around only. -/
theorem Consulting.looking {α : Type} {p : Task α} {facts : α → Prop}
    (consulting : Consulting src.ledger p facts) : Looking src p facts := by
  have ends {β : Type} {q : Program Scan.interface β} {fits : β → Prop}
      (consults : Consults src.ledger fits q) (s : Site) (ready : src.Ready s) :
      Ends src.serves q s fun b t => s.Looks t ∧ src.Ready t ∧ fits b := by
    induction consults generalizing s with
    | done holds => exact Ends.pure ⟨.refl s, ready, holds⟩
    | @call c next other _ _ answered failed =>
        rintro b t ⟨reply, u, ⟨latest, grown, replied, rfl⟩, run⟩
        have ready' : src.Ready { s with latest := latest } := ⟨ready.watched, ready.remembered⟩
        have looks : s.Looks { s with latest := latest } := ⟨grown, rfl, rfl⟩
        rw [ledgerAt_answer other] at replied
        rcases replied with rfl | ⟨fault, rfl⟩
        · obtain ⟨looks', rest⟩ := answered _ ready' b t run
          exact ⟨looks.trans looks', rest⟩
        · obtain ⟨looks', rest⟩ := failed fault _ ready' b t run
          exact ⟨looks.trans looks', rest⟩
  exact fun s ready => ends consulting s ready

theorem looking_askWatchList (w : Watched) :
    Looking src (askWatchList (.contains w)) (· = src.watched.contains w) := by
  have asked : Looking src (ask (.watchList (.contains w))) fun r =>
      ∀ b, r = .ok b → b = src.watched.contains w := by
    apply Looking.ask
    rintro s r t ready (⟨rfl, rfl⟩ | ⟨⟨fault, rfl⟩, rfl⟩)
    · refine ⟨rfl, rfl, rfl, ready, ?_⟩
      rintro b same
      cases same
      rw [ready.watched]
    · refine ⟨rfl, rfl, rfl, ready, ?_⟩
      rintro b same
      cases same
  refine asked.bind ?_
  intro r told
  cases r with
  | ok b => exact Looking.pure (told b rfl)
  | error fault => exact Looking.throw _

theorem looking_isWatched (w : Watched) :
    Looking src (isWatched w) (· = src.watched.contains w) := by
  have known : Looking src (ask (.knows w)) fun b => b = true → src.watched.contains w = true := by
    apply Looking.ask
    rintro s b t ready ⟨told, rfl⟩
    exact ⟨rfl, rfl, rfl, ready, fun same => ready.remembered w (told same)⟩
  have remembering (watched : src.watched.contains w = true) :
      Looking src (ask (.remember w)) fun _ => True := by
    apply Looking.ask
    rintro s _ t ready rfl
    refine ⟨rfl, rfl, rfl, ⟨ready.watched, ?_⟩, trivial⟩
    intro v member
    rcases List.mem_cons.mp member with rfl | old
    · exact watched
    · exact ready.remembered v old
  unfold isWatched
  refine known.bind ?_
  intro b told
  cases b with
  | true => exact Looking.pure (told rfl).symm
  | false =>
      refine (looking_askWatchList w).bind ?_
      rintro b rfl
      cases watched : src.watched.contains w with
      | true => exact (remembering watched).bind fun _ _ => Looking.pure rfl
      | false => exact Looking.pure rfl

theorem looking_candidates (logs : List Log) :
    Looking src (candidates src.plan logs) (· = logs.filterMap src.candidate?) := by
  induction logs with
  | nil => exact Looking.pure rfl
  | cons log logs ih =>
      unfold candidates
      rw [List.filterMap_cons, Source.candidate?]
      cases resolved : log.resolve src.plan.contracts with
      | error fault => exact Looking.throw _
      | ok resolution =>
          cases resolution with
          | skipped reason => exact ih
          | event decoded =>
              refine (looking_isWatched _).bind ?_
              rintro b rfl
              simp only
              cases watched : src.watched.contains ⟨decoded.wallet, src.plan.chainId⟩ with
              | false => exact ih
              | true =>
                  refine ih.bind ?_
                  rintro cs rfl
                  exact Looking.pure rfl

theorem answers_of_candidate? {log : Log} {c : Candidate} (found : src.candidate? log = some c)
    {after last : UInt64} (later : after < last) :
    src.ledger.answers (after + 1) last src.plan.contracts.emitters
      (EventKind.all.map EventKind.topic) log = within after last log.blockNumber := by
  obtain ⟨rfl, resolved, -⟩ := Source.candidate?_iff.mp found
  exact answers_of_resolve src.ledger resolved later

theorem qualifying_eq (src : Source) {after last : UInt64} (later : after < last) :
    ((Log.inOrder ((src.ledger.logs.filter (src.ledger.answers (after + 1) last
        src.plan.contracts.emitters (EventKind.all.map EventKind.topic))).filter
          (!·.removed))).filterMap src.candidate?).filter
        (fun c => src.ledger.statusOf c.log.txHash = .ok) = src.qualifying after last := by
  rw [List.filter_filter, Log.inOrder_filter src.positions, Source.qualifying, Source.logsIn,
    List.filter_filter, List.filter_filterMap, List.filterMap_filter, List.filterMap_filter]
  apply List.filterMap_congr
  intro log _
  cases found : src.candidate? log with
  | none => simp
  | some c =>
      rw [answers_of_candidate? found later]
      obtain ⟨rfl, -, -⟩ := Source.candidate?_iff.mp found
      cases inside : within after last c.log.blockNumber <;> cases c.log.removed <;>
        simp [Option.filter]

/-- A range that is resolved is resolved to its events, all of which can be told. -/
theorem looking_resolveRange {after last : UInt64} (later : after < last) :
    Looking src (resolveRange src.plan (after + 1) last) fun es =>
      es = src.events after last ∧ src.Dated after last := by
  unfold resolveRange
  refine (Consulting.askChain (by simp)).looking.bind ?_
  intro logs answered
  obtain rfl := Except.ok.inj answered
  refine (looking_candidates _).bind ?_
  rintro found rfl
  refine (consulting_rest _).looking.mono ?_
  rw [qualifying_eq src later, ← src.event?_eq]
  exact fun es told => ⟨told.1, told.2.1⟩

end

end VaultTransfers.Scan
