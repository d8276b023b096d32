import VaultTransfers.Proofs.Consume.Progress

/-!
The offset that a consumer commits, and the messages that it has dealt with. The
calls of the loop may fail at any time, the log may grow, and reading may go back
to the committed offset. What is behind the committed offset has then been
applied, or it is lost: it could not be applied, and the rewind to it has failed.
-/

namespace VaultTransfers

namespace Program

variable {I : Interface} {α β σ : Type} {answer : (c : I.Call) → StateM σ (I.Reply c)}

/-- The states of a run, one behind each call. -/
def trail (answer : (c : I.Call) → StateM σ (I.Reply c)) : Program I α → σ → List σ
  | done _, _ => []
  | call c next, s => (answer c s).2 :: trail answer (next (answer c s).1) (answer c s).2

theorem trail_bind (p : Program I α) (f : α → Program I β) (s : σ) :
    (p >>= f).trail answer s = p.trail answer s ++
      (f (p.interpret answer s).1).trail answer (p.interpret answer s).2 := by
  induction p generalizing s with
  | done a => rfl
  | call c next ih => exact congrArg ((answer c s).2 :: ·) (ih (answer c s).1 (answer c s).2)

end Program

namespace Bus

/-- What may happen on a bus besides the calls of its reader: messages are added, and a reader that
has lost its position goes on from the committed offset. -/
structure Passes (s t : Bus) : Prop where
  log : s.log <+: t.log
  numbered : s.Numbered → t.Numbered
  committed : t.committed = s.committed
  position : t.position = s.position ∨ t.position = s.committed

namespace Passes

variable {s t u : Bus}

theorem refl (s : Bus) : s.Passes s :=
  ⟨List.prefix_refl _, id, rfl, .inl rfl⟩

theorem trans (first : s.Passes t) (second : t.Passes u) : s.Passes u where
  log := first.log.trans second.log
  numbered := second.numbered ∘ first.numbered
  committed := second.committed.trans first.committed
  position := by
    rcases second.position with same | back
    · rw [same]
      exact first.position
    · exact .inr (back.trans first.committed)

end Passes

variable {bus : Bus} {d : Delivery} {fault : BusFault}

theorem next_ok (read : (answer .next bus).1 = .ok d) :
    bus.log[bus.position]? = some d ∧
      (answer .next bus).2 = { bus with position := bus.position + 1 } := by
  cases found : bus.log[bus.position]? with
  | none =>
      simp only [answer, found] at read
      cases read
  | some d' =>
      simp only [answer, found] at read
      cases read
      exact ⟨rfl, by simp only [answer, found]⟩

theorem next_error (failed : (answer .next bus).1 = .error fault) :
    (answer .next bus).2 = bus := by
  cases found : bus.log[bus.position]? with
  | none => simp only [answer, found]
  | some d =>
      simp only [answer, found] at failed
      cases failed

end Bus

namespace Consume

/-- The answers of a bus to a consumer. A call may fail, without effect or, but for a reading, with
it. Nothing is asked of the table of orders. -/
def busServes : Service Consume.interface Bus := fun c s reply t =>
  ∃ u, s.Passes u ∧
    match c with
    | .bus c =>
      reply = (Bus.answer c u).1 ∧ t = (Bus.answer c u).2 ∨
        (∃ fault, reply = .error fault) ∧ (t = u ∨ c ≠ .next ∧ t = (Bus.answer c u).2)
    | .orders _ => t = u

/-- What has become of a message that was read: it is applied, or comes again, or it could not be
applied and the rewind to it has failed. -/
inductive Fate where
  | applied
  | again
  | lost
deriving DecidableEq, Repr

section

variable {σ : Type} (answer : (c : interface.Call) → StateM σ (interface.Reply c)) (fresh : StateM σ OrderId)

/-- What becomes of a message in the turn that has read it. -/
def fate (id : OrderId) (d : Delivery) (s : σ) : Fate :=
  match (onOrders (Materialize.process id d.payload).run).interpret answer s with
  | (.ok _, _) => .applied
  | (.error _, t) =>
    match (answer (.bus (.rewind d)) t).1 with
    | .ok _ => .again
    | .error _ => .lost

/-- The offset of the message that a turn reads, and its fate. -/
def outcome (id : OrderId) (s : σ) : Option (Nat × Fate) :=
  match answer (.bus .next) s with
  | (.ok d, t) => some (d.offset, fate answer id d t)
  | (.error _, _) => none

def takeTurn : StateM σ Turn := do
  (turn (← fresh)).interpret answer

/-- The state behind a number of turns. -/
def stateAfter : (turns : Nat) → σ → σ
  | 0, s => s
  | turns + 1, s => stateAfter turns (takeTurn answer fresh s).2

/-- What has become of the messages read in a number of turns. -/
def outcomes : (turns : Nat) → σ → List (Nat × Fate)
  | 0, _ => []
  | turns + 1, s =>
    (outcome answer (fresh s).1 (fresh s).2).toList ++ outcomes turns (takeTurn answer fresh s).2

/-- The moments of a turn before its last call; the state behind that is the first of the next
turn. -/
def moments (s : σ) : List σ :=
  s :: (fresh s).2 :: ((turn (fresh s).1).trail answer (fresh s).2).dropLast

end

/-- The messages before the position, and those before the committed offset, are done with. -/
structure Dealt (done : Nat → Prop) (bus : Bus) : Prop where
  numbered : bus.Numbered
  read : ∀ k < bus.position, done k
  committed : ∀ k < bus.committed, done k

section

variable {done done' : Nat → Prop} {bus bus' : Bus}

theorem Dealt.mono (dealt : Dealt done bus) (more : ∀ k, done k → done' k) : Dealt done' bus where
  numbered := dealt.numbered
  read := fun k below => more k (dealt.read k below)
  committed := fun k below => more k (dealt.committed k below)

theorem Dealt.passes (dealt : Dealt done bus) (passes : bus.Passes bus') : Dealt done bus' where
  numbered := passes.numbered dealt.numbered
  read := by
    rcases passes.position with same | back
    · rw [same]
      exact dealt.read
    · rw [back]
      exact dealt.committed
  committed := by
    rw [passes.committed]
    exact dealt.committed

/-- A message that is read is the first that need not be done with. -/
theorem Dealt.next (dealt : Dealt done bus) {d : Delivery} (read : bus.log[bus.position]? = some d) :
    (∀ k < d.offset, done k) ∧
      Dealt (fun k => done k ∨ k = d.offset) { bus with position := bus.position + 1 } := by
  have offset := dealt.numbered.offset_eq read
  refine ⟨fun k below => dealt.read k (offset ▸ below), dealt.numbered, ?_, ?_⟩
  · intro k below
    rcases Nat.lt_succ_iff_lt_or_eq.mp below with before | here
    · exact .inl (dealt.read k before)
    · exact .inr (here.trans offset.symm)
  · exact fun k below => .inl (dealt.committed k below)

/-- A commit that comes through is one of a message that is done with. -/
theorem Dealt.commit {d : Delivery} {reply : interface.Reply (.bus (.commit d))}
    (dealt : Dealt (fun k => done k ∨ k = d.offset) bus) (below : ∀ k < d.offset, done k)
    (served : busServes (.bus (.commit d)) bus reply bus') :
    Dealt (fun k => done k ∨ k = d.offset) bus' := by
  obtain ⟨u, passes, effect⟩ := served
  have kept := dealt.passes passes
  have recorded : Dealt (fun k => done k ∨ k = d.offset)
      { u with committed := d.offset + 1 } := by
    refine ⟨kept.numbered, kept.read, ?_⟩
    intro k inside
    exact (Nat.lt_succ_iff_lt_or_eq.mp inside).imp_left (below k)
  rcases effect with ⟨-, rfl⟩ | ⟨-, rfl | ⟨-, rfl⟩⟩
  · exact recorded
  · exact kept
  · exact recorded

/-- After a rewind that comes through, the message need not be done with. -/
theorem Dealt.rewind {d : Delivery} {reply : interface.Reply (.bus (.rewind d))}
    (dealt : Dealt (fun k => done k ∨ k = d.offset) bus) (below : ∀ k < d.offset, done k)
    (committed : ∀ k < bus.committed, done k)
    (served : busServes (.bus (.rewind d)) bus reply bus') :
    Dealt done bus' ∨ (∃ fault, reply = .error fault) ∧
      Dealt (fun k => done k ∨ k = d.offset) bus' := by
  obtain ⟨u, passes, effect⟩ := served
  have kept := dealt.passes passes
  have rewound : Dealt done { u with position := d.offset } := by
    refine ⟨kept.numbered, below, ?_⟩
    change ∀ k < u.committed, done k
    rw [passes.committed]
    exact committed
  rcases effect with ⟨-, rfl⟩ | ⟨failed, rfl | ⟨-, rfl⟩⟩
  · exact .inl rewound
  · exact .inr ⟨failed, kept⟩
  · exact .inl rewound

end

section

variable {σ : Type} {answer : (c : interface.Call) → StateM σ (interface.Reply c)} {fresh : StateM σ OrderId}
  {view : σ → Bus} {done : Nat → Prop} {s : σ}

/-- Whatever a message asks of the table of orders, for the bus time passes. -/
theorem passes_onOrders (served : ∀ c s, busServes c (view s) (answer c s).1 (view (answer c s).2))
    {α : Type} (p : Program OrderTable.interface α) (s : σ) :
    (view s).Passes (view ((onOrders p).interpret answer s).2) ∧
      ∀ t ∈ (onOrders p).trail answer s, (view s).Passes (view t) := by
  induction p generalizing s with
  | done a => exact ⟨.refl _, fun t member => absurd member List.not_mem_nil⟩
  | call c next ih =>
      obtain ⟨u, passes, same⟩ := served (.orders c) s
      have first : (view s).Passes (view (answer (.orders c) s).2) := same ▸ passes
      obtain ⟨last, within⟩ := ih (answer (.orders c) s).1 (answer (.orders c) s).2
      refine ⟨first.trans last, ?_⟩
      intro t member
      rcases List.mem_cons.mp member with rfl | later
      · exact first
      · exact first.trans (within t later)

theorem handle_trail (id : OrderId) (d : Delivery) (s : σ) :
    (handle id d).trail answer s =
      (onOrders (Materialize.process id d.payload).run).trail answer s ++
        [((handle id d).interpret answer s).2] := by
  rw [handle, Program.trail_bind, Program.interpret_bind_run]
  cases ((onOrders (Materialize.process id d.payload).run).interpret answer s).1 with
  | ok applied => rfl
  | error fault => rfl

theorem dealt_handle (served : ∀ c s, busServes c (view s) (answer c s).1 (view (answer c s).2))
    (id : OrderId) {d : Delivery} (below : ∀ k < d.offset, done k)
    (committed : ∀ k < (view s).committed, done k)
    (dealt : Dealt (fun k => done k ∨ k = d.offset) (view s)) :
    Dealt (fun k => done k ∨ k = d.offset ∧ fate answer id d s ≠ .again)
      (view ((handle id d).interpret answer s).2) := by
  have processing := (passes_onOrders served (Materialize.process id d.payload).run s).1
  rw [handle, Program.interpret_bind_run]
  unfold fate
  generalize (onOrders (Materialize.process id d.payload).run).interpret answer s = result
    at processing ⊢
  obtain ⟨r, t⟩ := result
  have after := dealt.passes processing
  cases r with
  | ok applied =>
      have recorded := after.commit below (served (.bus (.commit d)) t)
      exact recorded.mono fun k => Or.imp_right fun here => ⟨here, Fate.noConfusion⟩
  | error fault =>
      have rewinding := served (.bus (.rewind d)) t
      have committed' : ∀ k < (view t).committed, done k := by
        rw [processing.committed]
        exact committed
      rcases after.rewind below committed' rewinding with rewound | ⟨⟨fault', failed⟩, kept⟩
      · exact rewound.mono fun k => .inl
      · simp only [failed]
        exact kept.mono fun k => Or.imp_right fun here => ⟨here, Fate.noConfusion⟩

theorem turn_of_read {d : Delivery} {t : σ} (id : OrderId)
    (read : answer (.bus .next) s = (.ok d, t)) :
    (turn id).interpret answer s = (handle id d).interpret answer t ∧
      (turn id).trail answer s = t :: (handle id d).trail answer t ∧
      outcome answer id s = some (d.offset, fate answer id d t) := by
  have asked : (askBus .next).interpret answer s = (.ok d, t) := read
  have trailed : (askBus .next).trail answer s = [t] := congrArg (fun p : _ × σ => [p.2]) read
  rw [turn, Program.interpret_bind_run, Program.trail_bind, asked, trailed, outcome, read]
  exact ⟨rfl, rfl, rfl⟩

theorem turn_of_unread {fault : BusFault} {t : σ} (id : OrderId)
    (failed : answer (.bus .next) s = (.error fault, t)) :
    ((turn id).interpret answer s).2 = t ∧ (turn id).trail answer s = [t] := by
  have asked : (askBus .next).interpret answer s = (.error fault, t) := failed
  have trailed : (askBus .next).trail answer s = [t] := congrArg (fun p : _ × σ => [p.2]) failed
  rw [turn, Program.interpret_bind_run, Program.trail_bind, asked, trailed]
  cases fault <;> exact ⟨rfl, rfl⟩

/-- A turn commits no sooner than in its last call, and then nothing that is not done with. -/
theorem dealt_turn (served : ∀ c s, busServes c (view s) (answer c s).1 (view (answer c s).2))
    (id : OrderId) (dealt : Dealt done (view s)) :
    (∀ t ∈ ((turn id).trail answer s).dropLast, (view t).committed = (view s).committed) ∧
      Dealt (fun k => done k ∨ ∃ f, outcome answer id s = some (k, f) ∧ f ≠ .again)
        (view ((turn id).interpret answer s).2) := by
  obtain ⟨u, passes, effect⟩ := served (.bus .next) s
  obtain ⟨reply, t, asked⟩ : ∃ reply t, answer (.bus .next) s = (reply, t) := ⟨_, _, rfl⟩
  have passed := dealt.passes passes
  rw [asked] at effect
  cases reply with
  | error fault =>
      obtain ⟨after, trail⟩ := turn_of_unread id asked
      have same : view t = u := by
        rcases effect with ⟨closed, same⟩ | ⟨-, same | ⟨other, -⟩⟩
        · exact same.trans (Bus.next_error closed.symm)
        · exact same
        · exact absurd rfl other
      rw [after, trail, same]
      exact ⟨fun t member => absurd member List.not_mem_nil, passed.mono fun k => .inl⟩
  | ok d =>
      obtain ⟨after, trail, told⟩ := turn_of_read id asked
      have read : u.log[u.position]? = some d ∧
          view t = { u with position := u.position + 1 } := by
        rcases effect with ⟨read, same⟩ | ⟨⟨fault, failed⟩, -⟩
        · obtain ⟨found, moved⟩ := Bus.next_ok read.symm
          exact ⟨found, same.trans moved⟩
        · cases failed
      obtain ⟨found, same⟩ := read
      obtain ⟨below, reading⟩ := passed.next found
      rw [← same] at reading
      have committed : (view t).committed = (view s).committed := by
        rw [same]
        exact passes.committed
      constructor
      · have processing := (passes_onOrders served (Materialize.process id d.payload).run t).2
        rw [trail, handle_trail, ← List.cons_append, List.dropLast_concat]
        intro v member
        rcases List.mem_cons.mp member with rfl | within
        · exact committed
        · exact (processing v within).committed.trans committed
      · have earlier : ∀ k < (view t).committed, done k := by
          rw [committed]
          exact dealt.committed
        rw [after]
        refine (dealt_handle served id below earlier reading).mono ?_
        rintro k (before | ⟨rfl, f⟩)
        · exact .inl before
        · exact .inr ⟨_, told, f⟩

theorem takeTurn_of_read {d : Delivery} {t : σ}
    (read : answer (.bus .next) (fresh s).2 = (.ok d, t)) :
    takeTurn answer fresh s = (handle (fresh s).1 d).interpret answer t ∧
      outcomes answer fresh 1 s = [(d.offset, fate answer (fresh s).1 d t)] := by
  obtain ⟨after, -, told⟩ := turn_of_read (fresh s).1 read
  refine ⟨after, ?_⟩
  rw [outcomes, told]
  rfl

theorem dealt_takeTurn (served : ∀ c s, busServes c (view s) (answer c s).1 (view (answer c s).2))
    (idle : ∀ s, (view s).Passes (view (fresh s).2))
    (dealt : Dealt done (view s)) :
    (∀ t ∈ moments answer fresh s, (view t).committed = (view s).committed) ∧
      Dealt (fun k => done k ∨ ∃ f, (k, f) ∈ outcomes answer fresh 1 s ∧ f ≠ .again)
        (view (takeTurn answer fresh s).2) := by
  have start := idle s
  obtain ⟨quiet, after⟩ := dealt_turn served (fresh s).1 (dealt.passes start)
  constructor
  · intro t member
    rcases List.mem_cons.mp member with rfl | member
    · rfl
    · rcases List.mem_cons.mp member with rfl | within
      · exact start.committed
      · exact (quiet t within).trans start.committed
  · refine after.mono ?_
    rintro k (before | ⟨f, told, other⟩)
    · exact .inl before
    · exact .inr ⟨f, by simp [outcomes, told], other⟩

theorem outcomes_succ (n : Nat) (s : σ) :
    outcomes answer fresh (n + 1) s =
      outcomes answer fresh 1 s ++ outcomes answer fresh n (takeTurn answer fresh s).2 := by
  simp only [outcomes, List.append_nil]

theorem dealt_stateAfter (served : ∀ c s, busServes c (view s) (answer c s).1 (view (answer c s).2))
    (idle : ∀ s, (view s).Passes (view (fresh s).2))
    (dealt : Dealt done (view s)) (n : Nat) :
    Dealt (fun k => done k ∨ ∃ f, (k, f) ∈ outcomes answer fresh n s ∧ f ≠ .again)
      (view (stateAfter answer fresh n s)) := by
  induction n generalizing s done with
  | zero => exact dealt.mono fun k => .inl
  | succ n ih =>
      rw [outcomes_succ]
      refine (ih (dealt_takeTurn served idle dealt).2).mono ?_
      rintro k ((before | ⟨f, first, other⟩) | ⟨f, later, other⟩)
      · exact .inl before
      · exact .inr ⟨f, List.mem_append_left _ first, other⟩
      · exact .inr ⟨f, List.mem_append_right _ later, other⟩

theorem run_of_proceeded {t : σ} (took : takeTurn answer fresh s = (.proceed, t))
    (turns pauses : Nat) :
    run answer fresh (turns + 1) pauses s = run answer fresh turns pauses t := by
  have took' : (turn (fresh s).1).interpret answer (fresh s).2 = (.proceed, t) := took
  have unfolded := run_succ answer fresh turns pauses s
  simp only [took'] at unfolded
  exact unfolded

theorem run_of_stopped {t : σ} (took : takeTurn answer fresh s = (.stop, t)) (turns pauses : Nat) :
    run answer fresh (turns + 1) pauses s = (.closed, t) := by
  have took' : (turn (fresh s).1).interpret answer (fresh s).2 = (.stop, t) := took
  have unfolded := run_succ answer fresh turns pauses s
  simp only [took'] at unfolded
  exact unfolded

theorem run_of_paused {t : σ} (took : takeTurn answer fresh s = (.pause, t)) (turns : Nat) :
    run answer fresh (turns + 1) 0 s = (.cancelled, t) ∧
      ∀ pauses, run answer fresh (turns + 1) (pauses + 1) s = run answer fresh turns pauses t := by
  have took' : (turn (fresh s).1).interpret answer (fresh s).2 = (.pause, t) := took
  have unfolded := fun pauses => run_succ answer fresh turns pauses s
  simp only [took'] at unfolded
  exact ⟨unfolded 0, fun pauses => unfolded (pauses + 1)⟩

/-- The loop ends between two turns. -/
theorem run_eq_stateAfter (turns pauses : Nat) (s : σ) :
    ∃ n ≤ turns, (run answer fresh turns pauses s).2 = stateAfter answer fresh n s := by
  induction turns generalizing pauses s with
  | zero => exact ⟨0, Nat.le_refl 0, rfl⟩
  | succ turns ih =>
      obtain ⟨ended, t, took⟩ : ∃ ended t, takeTurn answer fresh s = (ended, t) := ⟨_, _, rfl⟩
      have stopped : t = stateAfter answer fresh 1 s := (congrArg Prod.snd took).symm
      have onward (pauses : Nat) : ∃ n ≤ turns + 1,
          (run answer fresh turns pauses t).2 = stateAfter answer fresh n s := by
        obtain ⟨n, few, same⟩ := ih pauses t
        refine ⟨n + 1, Nat.succ_le_succ few, same.trans ?_⟩
        rw [stateAfter, took]
      cases ended with
      | proceed =>
          rw [run_of_proceeded took]
          exact onward pauses
      | stop =>
          rw [run_of_stopped took]
          exact ⟨1, Nat.le_add_left 1 turns, stopped⟩
      | pause =>
          obtain ⟨cancelled, again⟩ := run_of_paused took turns
          cases pauses with
          | zero =>
              rw [cancelled]
              exact ⟨1, Nat.le_add_left 1 turns, stopped⟩
          | succ pauses =>
              rw [again]
              exact onward pauses

/-- Whichever calls fail and whatever the messages say, the committed offset never exceeds that of a
message that has been neither applied nor lost, from the offset on that the loop has begun at. The
loop ends between two of its turns. -/
theorem committed_le_of_unapplied
    (served : ∀ c s, busServes c (view s) (answer c s).1 (view (answer c s).2))
    (idle : ∀ s, (view s).Passes (view (fresh s).2))
    (numbered : (view s).Numbered) (start : (view s).position = (view s).committed) :
    (∀ turns pauses, ∃ n ≤ turns,
      (run answer fresh turns pauses s).2 = stateAfter answer fresh n s) ∧
    ∀ n, ∀ t ∈ moments answer fresh (stateAfter answer fresh n s), ∀ k, (view s).committed ≤ k →
      (k, .applied) ∉ outcomes answer fresh n s → (k, .lost) ∉ outcomes answer fresh n s →
        (view t).committed ≤ k := by
  refine ⟨fun turns pauses => run_eq_stateAfter turns pauses s, ?_⟩
  intro n t member k first unapplied kept
  have dealt : Dealt (fun k => k < (view s).committed) (view s) :=
    ⟨numbered, start ▸ fun k before => before, fun k before => before⟩
  have after := dealt_stateAfter served idle dealt n
  rw [(dealt_takeTurn served idle after).1 t member]
  by_contra behind
  rcases after.committed k (Nat.lt_of_not_le behind) with before | ⟨f, told, other⟩
  · exact Nat.not_lt.mpr first before
  · cases f with
    | applied => exact unapplied told
    | again => exact other rfl
    | lost => exact kept told

end

/-- A bus and a table in memory, where some of the calls fail without effect. -/
def flaky (fails : Nat → Bool) : (c : interface.Call) → StateM (Nat × Reader) (interface.Reply c)
  | .bus c => fun (n, s) =>
    if fails n then (.error .timedOut, n + 1, s)
    else ((Reader.answer (.bus c) s).1, n + 1, (Reader.answer (.bus c) s).2)
  | .orders c => fun (n, s) =>
    if fails n then (.error (.database .timedOut), n + 1, s)
    else ((Reader.answer (.orders c) s).1, n + 1, (Reader.answer (.orders c) s).2)

theorem busServes_flaky (fails : Nat → Bool) (c : interface.Call) (s : Nat × Reader) :
    busServes c s.2.bus (flaky fails c s).1 (flaky fails c s).2.2.bus := by
  obtain ⟨n, s⟩ := s
  refine ⟨s.bus, .refl _, ?_⟩
  cases c with
  | bus c =>
      unfold flaky
      dsimp only
      split
      · exact .inr ⟨⟨_, rfl⟩, .inl rfl⟩
      · exact .inl ⟨rfl, rfl⟩
  | orders c =>
      unfold flaky
      dsimp only
      split
      · rfl
      · rfl

/-- Identities by the calls so far. -/
def counted : StateM (Nat × Reader) OrderId := fun (n, s) => (⟨n⟩, n, s)

/-- The deposit of a wallet as a message of the log. -/
def sampleDelivery (offset : Nat) (wallet : String) : Delivery :=
  ⟨offset, wallet, (Materialize.sampleDeposit wallet (offset + 1)).message.toBytes⟩

def sampleReading (calls position committed : Nat) (orders : OrderTable) : Nat × Reader :=
  (calls, ⟨⟨[sampleDelivery 0 "w", sampleDelivery 1 "v"], position, committed⟩, orders⟩)

theorem ofBytes_sampleDelivery (offset : Nat) (wallet : String) :
    Message.ofBytes (sampleDelivery offset wallet).payload =
      .ok (Materialize.sampleDeposit wallet (offset + 1)).message := by
  rw [sampleDelivery, Materialize.sampleDeposit, Materialize.sampleArrival,
    Message.ofBytes_toBytes_of_onClock]
  · exact Instant.onClock_ofUnixMillis 0
  · exact Instant.onClock_ofUnixMillis 0

theorem process_sampleDelivery (id : OrderId) (offset : Nat) (wallet : String) :
    Materialize.process id (sampleDelivery offset wallet).payload =
      Materialize.applyDeposit id (Materialize.sampleDeposit wallet (offset + 1)).message := by
  rw [Materialize.process, ofBytes_sampleDelivery, Materialize.sampleDeposit,
    Materialize.sampleArrival]
  simp only [Materialize.apply, Message.payload_ofEvent]

/-- The first write fails; the rewind comes through. -/
theorem takeTurn_retrying :
    takeTurn (flaky (· = 1)) counted (sampleReading 0 0 0 .empty) =
        (.pause, sampleReading 3 0 0 .empty) ∧
      outcomes (flaky (· = 1)) counted 1 (sampleReading 0 0 0 .empty) = [(0, .again)] := by
  have read : flaky (· = 1) (.bus .next) (counted (sampleReading 0 0 0 .empty)).2 =
    (.ok (sampleDelivery 0 "w"), sampleReading 1 1 0 .empty) := rfl
  obtain ⟨after, told⟩ := takeTurn_of_read read
  rw [after, told, handle, fate, process_sampleDelivery]
  exact ⟨rfl, rfl⟩

theorem committed_le_of_unapplied_on_retry :
    outcomes (flaky (· = 1)) counted 1 (sampleReading 0 0 0 .empty) = [(0, .again)] ∧
      ∀ t ∈ moments (flaky (· = 1)) counted
          (stateAfter (flaky (· = 1)) counted 1 (sampleReading 0 0 0 .empty)),
        t.2.bus.committed ≤ 0 := by
  refine ⟨takeTurn_retrying.2, ?_⟩
  intro t member
  have bound := @committed_le_of_unapplied _ _ counted (fun s => s.2.bus)
    (sampleReading 0 0 0 .empty) (busServes_flaky (· = 1)) (fun s => .refl s.2.bus) rfl rfl
  refine bound.2 1 t member 0 (Nat.le_refl 0) ?_ ?_
  · rw [takeTurn_retrying.2]
    decide
  · rw [takeTurn_retrying.2]
    decide

/-- The first write and then the rewind to its message fail. -/
def lossy : (c : interface.Call) → StateM (Nat × Reader) (interface.Reply c) :=
  flaky fun n => n = 1 ∨ n = 2

/-- The second deposit as an order. -/
def sampleOrder : Order :=
  Materialize.depositRow { Materialize.sampleDeposit "v" 2 with fresh := ⟨3⟩ }

theorem takeTurn_lossy_first :
    takeTurn lossy counted (sampleReading 0 0 0 .empty) = (.pause, sampleReading 3 1 0 .empty) ∧
      outcomes lossy counted 1 (sampleReading 0 0 0 .empty) = [(0, .lost)] := by
  have read : lossy (.bus .next) (counted (sampleReading 0 0 0 .empty)).2 =
    (.ok (sampleDelivery 0 "w"), sampleReading 1 1 0 .empty) := rfl
  obtain ⟨after, told⟩ := takeTurn_of_read read
  rw [after, told, handle, fate, process_sampleDelivery]
  exact ⟨rfl, rfl⟩

theorem takeTurn_lossy_second :
    takeTurn lossy counted (sampleReading 3 1 0 .empty) =
        (.proceed, sampleReading 6 2 2 ⟨[sampleOrder]⟩) ∧
      outcomes lossy counted 1 (sampleReading 3 1 0 .empty) = [(1, .applied)] := by
  have read : lossy (.bus .next) (counted (sampleReading 3 1 0 .empty)).2 =
    (.ok (sampleDelivery 1 "v"), sampleReading 4 2 0 .empty) := rfl
  obtain ⟨after, told⟩ := takeTurn_of_read read
  rw [after, told, handle, fate, process_sampleDelivery]
  exact ⟨rfl, rfl⟩

/-- The first message is never applied, and yet the loop commits the offset behind it. -/
theorem lost_message_committed :
    outcomes lossy counted 2 (sampleReading 0 0 0 .empty) = [(0, .lost), (1, .applied)] ∧
      run lossy counted 3 1 (sampleReading 0 0 0 .empty) =
        (.closed, sampleReading 7 2 2 ⟨[sampleOrder]⟩) := by
  obtain ⟨first, lost⟩ := takeTurn_lossy_first
  obtain ⟨second, applied⟩ := takeTurn_lossy_second
  have third : takeTurn lossy counted (sampleReading 6 2 2 ⟨[sampleOrder]⟩) =
      (.stop, sampleReading 7 2 2 ⟨[sampleOrder]⟩) := rfl
  constructor
  · rw [outcomes_succ, lost, first, applied]
    rfl
  · rw [(run_of_paused first 2).2, run_of_proceeded second, run_of_stopped third]

end Consume

end VaultTransfers
