import VaultTransfers.Proofs.Scan.Coverage

/-!
A scanner that nothing fails for. Where the logs of a range can be read and what
there is to know about those of watched wallets is known, the scanner finds the
events of the range, all of them and nothing else, whatever of the watch list it
remembers and whatever it has forgotten.
-/

namespace VaultTransfers.Scan

open Program (Ends)

/-- However it is answered, the task goes through, and what it answers is as stated. -/
def Succeeds (serve : Service Scan.interface Shared) {α : Type} (p : Task α) (s : Shared)
    (facts : α → Shared → Prop) : Prop :=
  Ends serve p.run s fun r t => ∃ a, r = .ok a ∧ facts a t

namespace Succeeds

variable {serve : Service Scan.interface Shared} {α β : Type} {s : Shared}
  {facts : α → Shared → Prop} {facts' : β → Shared → Prop}

theorem pure {a : α} (holds : facts a s) : Succeeds serve (Pure.pure a) s facts :=
  Ends.pure ⟨a, rfl, holds⟩

theorem bind {p : Task α} {f : α → Task β}
    (first : Succeeds serve p s fun a t => Succeeds serve (f a) t facts') :
    Succeeds serve (p >>= f) s facts' := by
  refine Ends.except_bind (Ends.mono first ?_)
  rintro r t ⟨a, rfl, rest⟩
  exact rest

theorem mono {p : Task α} {weaker : α → Shared → Prop} (succeeds : Succeeds serve p s facts)
    (imp : ∀ a t, facts a t → weaker a t) : Succeeds serve p s weaker := by
  refine Ends.mono succeeds ?_
  rintro r t ⟨a, rfl, holds⟩
  exact ⟨a, rfl, imp a t holds⟩

theorem ask {c : Scan.Call} {facts : Scan.Reply c → Shared → Prop}
    (answered : ∀ r t, serve c s r t → facts r t) : Succeeds serve (ask c) s facts := by
  refine Ends.bind (Ends.perform ?_)
  intro r t served
  exact Ends.pure ⟨r, rfl, answered r t served⟩

theorem orFail {ε : Type} {fault : ε → Fault} {p : Task (Except ε α)}
    (asked : Succeeds serve p s fun r t => ∃ a, r = .ok a ∧ facts a t) :
    Succeeds serve (p >>= orFail fault) s facts := by
  refine bind (asked.mono ?_)
  rintro r t ⟨a, rfl, holds⟩
  exact pure holds

end Succeeds

namespace Shared

/-- The wallets of the list are watched, and nothing else is remembered. -/
structure Watches (s : Shared) (list : WatchList) : Prop where
  watched : s.watched = list
  remembered : ∀ e ∈ s.remembered, list.contains e.2 = true

/-- What is stored stays as it is. -/
structure Stays (s t : Shared) : Prop where
  cursor : t.cursor = s.cursor
  box : t.box = s.box

theorem Stays.refl (s : Shared) : s.Stays s := ⟨rfl, rfl⟩

theorem Stays.trans {s t u : Shared} (first : s.Stays t) (second : t.Stays u) : s.Stays u :=
  ⟨second.cursor.trans first.cursor, second.box.trans first.box⟩

end Shared

namespace Survey

/-- Nothing fails, but what has been remembered may be forgotten. -/
def smooth (survey : Survey) (sc : Scanner) (head : UInt64) :
    (c : Scan.Call) → Shared → Scan.Reply c → Shared → Prop
  | .knows w, s, reply, t => (reply = true → (sc.number, w) ∈ s.remembered) ∧ t = s
  | c, s, reply, t => (reply, t) = survey.calmly sc head c s

theorem smooth_calmly (survey : Survey) (sc : Scanner) (head : UInt64) (c : Scan.Call)
    (s : Shared) :
    survey.smooth sc head c s (survey.calmly sc head c s).1 (survey.calmly sc head c s).2 := by
  cases c with
  | knows w => exact ⟨of_decide_eq_true, rfl⟩
  | _ => rfl

/-- Wherever the wallets of the list are watched, the task goes through without changing anything
that is stored, and what it answers is as stated. -/
def Finds (survey : Survey) (sc : Scanner) (head : UInt64) (list : WatchList) {α : Type}
    (p : Task α) (facts : α → Prop) : Prop :=
  ∀ s : Shared, s.Watches list → Succeeds (survey.smooth sc head) p s fun a t =>
    t.Watches list ∧ s.Stays t ∧ facts a

variable {survey : Survey} {sc : Scanner} {head : UInt64} {list : WatchList}

namespace Finds

variable {α β : Type} {facts : α → Prop} {facts' : β → Prop}

theorem pure {a : α} (holds : facts a) : survey.Finds sc head list (Pure.pure a) facts :=
  fun s watches => Succeeds.pure ⟨watches, .refl s, holds⟩

theorem bind {p : Task α} {f : α → Task β} (first : survey.Finds sc head list p facts)
    (rest : ∀ a, facts a → survey.Finds sc head list (f a) facts') :
    survey.Finds sc head list (p >>= f) facts' := by
  intro s watches
  refine Succeeds.bind ((first s watches).mono ?_)
  rintro a t ⟨watches', stays, told⟩
  refine (rest a told t watches').mono ?_
  rintro b u ⟨watches'', stays', told'⟩
  exact ⟨watches'', stays.trans stays', told'⟩

theorem mono {p : Task α} {weaker : α → Prop} (finds : survey.Finds sc head list p facts)
    (imp : ∀ a, facts a → weaker a) : survey.Finds sc head list p weaker := by
  rw [← bind_pure p]
  exact finds.bind fun a holds => pure (imp a holds)

theorem ask {c : Scan.Call} {facts : Scan.Reply c → Prop}
    (answered : ∀ (s : Shared) r t, s.Watches list → survey.smooth sc head c s r t →
      t.Watches list ∧ s.Stays t ∧ facts r) : survey.Finds sc head list (ask c) facts :=
  fun s watches => Succeeds.ask fun r t served => answered s r t watches served

theorem orFail {ε : Type} {fault : ε → Fault} {p : Task (Except ε α)}
    (asked : survey.Finds sc head list p fun r => ∃ a, r = .ok a ∧ facts a) :
    survey.Finds sc head list (p >>= orFail fault) facts := by
  refine asked.bind ?_
  rintro r ⟨a, rfl, holds⟩
  exact pure holds

theorem lookUpAll {κ β : Type} {ask : κ → Task β} {ks : List κ}
    (asked : ∀ k ∈ ks, survey.Finds sc head list (ask k) fun _ => True) :
    survey.Finds sc head list (lookUpAll ask ks) fun _ => True := by
  induction ks with
  | nil => exact pure trivial
  | cons k ks ih =>
      refine (asked k List.mem_cons_self).bind ?_
      intro b _
      refine (ih fun k member => asked k (List.mem_cons_of_mem _ member)).bind ?_
      exact fun _ _ => pure trivial

end Finds

theorem calmly_chain {c : Chain.Call} (other : c ≠ .latestBlock) (s : Shared) :
    survey.calmly sc head (.chain c) s = (survey.ledger.answer c, s) := by
  cases c with
  | latestBlock => exact absurd rfl other
  | _ => rfl

/-- Of a task that asks the chain only, and goes through, it is known what it answers. -/
theorem Finds.of_consulting {α : Type} {p : Task α} {facts : α → Prop}
    (finds : survey.Finds sc head list p fun _ => True)
    (consulting : Consulting survey.ledger p facts) : survey.Finds sc head list p facts := by
  have ends {β : Type} {q : Program Scan.interface β} {fits : β → Prop}
      (consults : Consults survey.ledger fits q) (s : Shared) :
      Ends (survey.smooth sc head) q s fun b _ => fits b := by
    induction consults with
    | done holds => exact Ends.pure holds
    | @call c next other _ _ answered _ =>
        rintro b t ⟨reply, u, served, run⟩
        obtain ⟨rfl, rfl⟩ := Prod.mk.inj (Eq.trans served (calmly_chain other s))
        exact answered b t run
  intro s watches r t run
  obtain ⟨a, rfl, watches', stays, -⟩ := finds s watches r t run
  exact ⟨a, rfl, watches', stays, ends consulting s _ t run a rfl⟩

theorem finds_askChain {c : Chain.Call} {a : Chain.Value c} (other : c ≠ .latestBlock)
    (answered : survey.ledger.answer c = .ok a) :
    survey.Finds sc head list (askChain c) (· = a) := by
  refine Finds.orFail (Finds.ask ?_)
  rintro s r t watches served
  obtain ⟨rfl, rfl⟩ := Prod.mk.inj (Eq.trans served (calmly_chain other s))
  exact ⟨watches, .refl _, a, answered, rfl⟩

theorem finds_isWatched (w : Watched) :
    survey.Finds sc head list (isWatched w) (· = list.contains w) := by
  have known : survey.Finds sc head list (ask (.knows w)) fun b =>
      b = true → list.contains w = true := by
    refine Finds.ask ?_
    rintro s b t watches ⟨told, rfl⟩
    exact ⟨watches, .refl _, fun same => watches.remembered _ (told same)⟩
  have asked : survey.Finds sc head list (askWatchList (.contains w)) (· = list.contains w) := by
    refine Finds.orFail (Finds.ask ?_)
    rintro s r t watches served
    obtain ⟨rfl, rfl⟩ := Prod.mk.inj served
    exact ⟨watches, ⟨rfl, rfl⟩, _, rfl, by rw [watches.watched]⟩
  have remembering (listed : list.contains w = true) :
      survey.Finds sc head list (ask (.remember w)) fun _ => True := by
    refine Finds.ask ?_
    rintro s _ t watches served
    obtain ⟨-, rfl⟩ := Prod.mk.inj served
    refine ⟨⟨watches.watched, ?_⟩, ⟨rfl, rfl⟩, trivial⟩
    exact List.forall_mem_cons.mpr ⟨listed, watches.remembered⟩
  unfold isWatched
  refine known.bind ?_
  intro b told
  cases b with
  | true => exact Finds.pure (told rfl).symm
  | false =>
      refine asked.bind ?_
      rintro b rfl
      cases listed : list.contains w with
      | true => exact (remembering listed).bind fun _ _ => Finds.pure rfl
      | false => exact Finds.pure rfl

/-- The candidates are the logs of listed wallets' events, each with what it means. -/
def Picked (survey : Survey) (list : WatchList) (logs : List Log) (cs : List Candidate) : Prop :=
  ∀ c, c ∈ cs ↔ c.log ∈ logs ∧ c.log.resolve survey.contracts = .ok (.event c.decoded) ∧
    list.contains ⟨c.decoded.wallet, survey.chainId⟩ = true

theorem finds_candidates {logs : List Log}
    (decoded : ∀ log ∈ logs, ∃ resolution, log.resolve survey.contracts = .ok resolution) :
    survey.Finds sc head list (candidates (survey.plan sc) logs) (survey.Picked list logs) := by
  induction logs with
  | nil => exact Finds.pure (by simp [Picked])
  | cons log logs ih =>
      obtain ⟨⟨resolution, read⟩, decoded'⟩ := List.forall_mem_cons.mp decoded
      have passed (unlisted : ∀ d, resolution = .event d →
          list.contains ⟨d.wallet, survey.chainId⟩ = false) :
          survey.Finds sc head list (candidates (survey.plan sc) logs)
            (survey.Picked list (log :: logs)) := by
        refine (ih decoded').mono ?_
        intro cs picked c
        rw [picked, List.mem_cons]
        refine ⟨fun told => ⟨.inr told.1, told.2⟩, ?_⟩
        rintro ⟨rfl | later, resolved, listed⟩
        · rw [unlisted _ (Except.ok.inj (read.symm.trans resolved))] at listed
          cases listed
        · exact ⟨later, resolved, listed⟩
      unfold candidates
      have read' : log.resolve (survey.plan sc).contracts = .ok resolution := read
      rw [read']
      cases resolution with
      | skipped reason => exact passed fun d same => by cases same
      | event d =>
          refine (finds_isWatched _).bind ?_
          rintro b rfl
          cases listed : list.contains ⟨d.wallet, (survey.plan sc).chainId⟩ with
          | false =>
              refine passed fun d' same => ?_
              cases same
              exact listed
          | true =>
              refine (ih decoded').bind ?_
              intro cs picked
              refine Finds.pure fun c => ?_
              rw [List.mem_cons, picked, List.mem_cons]
              constructor
              · rintro (rfl | told)
                · exact ⟨.inl rfl, read, listed⟩
                · exact ⟨.inr told.1, told.2⟩
              · obtain ⟨log', d'⟩ := c
                rintro ⟨rfl | later, resolved, listed'⟩
                · cases Except.ok.inj (read.symm.trans resolved)
                  exact .inl rfl
                · exact .inr ⟨later, resolved, listed'⟩

theorem exists_of_mem_distinct {κ : Type} {f : Candidate → Nat} {g : Nat → κ} {cs : List Candidate}
    {k : κ} (member : k ∈ (distinctInOrder (cs.map f)).map g) : ∃ c ∈ cs, g (f c) = k := by
  obtain ⟨n, among, rfl⟩ := List.mem_map.mp member
  obtain ⟨c, asked, rfl⟩ := List.mem_map.mp (mem_distinctInOrder.mp among)
  exact ⟨c, asked, rfl⟩

theorem finds_outcomes {cs : List Candidate}
    (known : ∀ c ∈ cs, survey.ledger.statusOf c.log.txHash ≠ .missing) :
    survey.Finds sc head list (outcomes cs) fun _ => True := by
  refine Finds.lookUpAll ?_
  intro k member
  obtain ⟨c, asked, rfl⟩ := exists_of_mem_distinct member
  have same : Word.ofNat c.log.txHash.toNat = c.log.txHash :=
    congrArg Word.mk (BitVec.ofNat_toNat 256 c.log.txHash.bits)
  have answered : ∃ b, survey.ledger.answer (.succeeded c.log.txHash) = .ok b := by
    simp only [Session.Ledger.answer]
    cases status : survey.ledger.statusOf c.log.txHash with
    | ok => exact ⟨true, rfl⟩
    | failed => exact ⟨false, rfl⟩
    | missing => exact absurd status (known c asked)
  obtain ⟨b, answered⟩ := answered
  rw [same]
  exact (finds_askChain (by simp) answered).mono fun _ _ => trivial

theorem finds_blockTimes {cs : List Candidate}
    (told : ∀ c ∈ cs, (survey.ledger.event? c).isSome = true) :
    survey.Finds sc head list (blockTimes cs) fun _ => True := by
  refine Finds.lookUpAll ?_
  intro k member
  obtain ⟨c, asked, rfl⟩ := exists_of_mem_distinct member
  obtain ⟨e, event⟩ := Option.isSome_iff_exists.mp (told c asked)
  obtain ⟨time, known, -⟩ := Option.map_eq_some_iff.mp event
  have answered : survey.ledger.answer (.blockTime c.log.blockNumber) = .ok time := by
    simp only [Session.Ledger.answer, known]
    rfl
  rw [UInt64.ofNat_toNat]
  exact (finds_askChain (by simp) answered).mono fun _ _ => trivial

theorem finds_dated {times : List (UInt64 × Instant)} {cs : List Candidate}
    (known : ∀ c ∈ cs, ∃ time, times.lookup c.log.blockNumber = some time) :
    survey.Finds sc head list (dated times cs) fun _ => True := by
  induction cs with
  | nil => exact Finds.pure trivial
  | cons c cs ih =>
      obtain ⟨⟨time, found⟩, known'⟩ := List.forall_mem_cons.mp known
      unfold dated
      rw [found]
      exact (ih known').bind fun _ _ => Finds.pure trivial

/-- What becomes of candidates whose outcomes and times are known. -/
theorem finds_rest {found : List Candidate} (known : ∀ c ∈ found, survey.Known c) :
    survey.Finds sc head list (do
        let succeeded ← outcomes found
        let kept := found.filter fun c => (succeeded.lookup c.log.txHash).getD false
        dated (← blockTimes kept) kept) fun es =>
      es = (found.filter fun c => survey.ledger.statusOf c.log.txHash = .ok).filterMap
        survey.ledger.event? := by
  refine ((finds_outcomes fun c member => (known c member).1).of_consulting
    (consulting_outcomes found)).bind ?_
  intro succeeded outcome
  have same := List.filter_congr fun c member => (outcome c member).1
  rw [same]
  have told : ∀ c ∈ found.filter fun c => survey.ledger.statusOf c.log.txHash = .ok,
      (survey.ledger.event? c).isSome = true := by
    intro c member
    obtain ⟨among, succeeded⟩ := List.mem_filter.mp member
    exact (known c among).2 (of_decide_eq_true succeeded)
  refine ((finds_blockTimes told).of_consulting (consulting_blockTimes _)).bind ?_
  intro times dates
  have looked := fun c member => (dates c member).imp fun _ told => told.1
  exact ((finds_dated looked).of_consulting (consulting_dated dates)).mono fun es told => told.1

/-- A range that can be read is resolved to the events of listed wallets in its blocks. -/
theorem finds_resolveRange {after last : UInt64} (later : after < last)
    (passable : survey.Passable list after last) :
    survey.Finds sc head list (resolveRange (survey.plan sc) (after + 1) last) fun es =>
      ∀ e, e ∈ es ↔ ∃ c, survey.Qualifies list c ∧ after < c.log.blockNumber ∧
        c.log.blockNumber ≤ last ∧ survey.ledger.event? c = some e := by
  unfold resolveRange
  refine (finds_askChain (by simp) rfl).bind ?_
  rintro logs rfl
  have asked := mem_asked survey later
  refine (finds_candidates ?_).bind ?_
  · intro log member
    obtain ⟨selects, lower, upper⟩ := (asked log).mp member
    obtain ⟨resolution, read, -⟩ := passable log selects lower upper
    exact ⟨resolution, read⟩
  intro found picked
  have known : ∀ c ∈ found, survey.Known c := by
    intro c member
    obtain ⟨among, resolved, listed⟩ := (picked c).mp member
    obtain ⟨selects, lower, upper⟩ := (asked c.log).mp among
    obtain ⟨resolution, read, known⟩ := passable c.log selects lower upper
    exact known c.decoded (Except.ok.inj (read.symm.trans resolved)) listed
  refine (finds_rest known).mono ?_
  rintro es rfl e
  rw [List.mem_filterMap]
  constructor
  · rintro ⟨c, member, event⟩
    obtain ⟨among, succeeded⟩ := List.mem_filter.mp member
    obtain ⟨inside, resolved, listed⟩ := (picked c).mp among
    obtain ⟨selects, lower, upper⟩ := (asked c.log).mp inside
    exact ⟨c, ⟨selects.member, selects.kept, resolved, listed, of_decide_eq_true succeeded⟩, lower,
      upper, event⟩
  · rintro ⟨c, qualifies, lower, upper, event⟩
    have inside := (asked c.log).mpr ⟨qualifies.selects, lower, upper⟩
    have among := (picked c).mpr ⟨inside, qualifies.resolved, qualifies.listed⟩
    exact ⟨c, List.mem_filter.mpr ⟨among, decide_eq_true qualifies.succeeded⟩, event⟩

end Survey

end VaultTransfers.Scan
