import VaultTransfers.Proofs.Consume.Turn
import VaultTransfers.Proofs.Publish.Stutter
import VaultTransfers.Proofs.Scan.Tick
import VaultTransfers.Proofs.Session.Steps

/-!
What each part of the pipeline sees of the world. The world's answers to a part
are among those that the part may get from its own view, and the rest of the
world stays as it is meanwhile.
-/

namespace VaultTransfers.Session

open Program (Runs)

/-- What there is before anything is scanned: a chain, the wallets that are watched, and the block
behind which scanning starts. -/
structure Scene where
  settings : Settings
  retryDelay : Nat
  ledger : Ledger
  origin : UInt64
  watched : List Watched
  positions : (ledger.logs.map Log.position).Nodup
  keys : (ledger.logs.map fun log => (log.txHash, log.logIndex)).Nodup

namespace Scene

def watchList (scene : Scene) : WatchList :=
  scene.watched.foldl (fun l w => l.register w) .empty

def source (scene : Scene) : Scan.Source :=
  ⟨.ofSettings scene.settings, scene.ledger, scene.watchList, scene.positions, scene.keys⟩

def world (scene : Scene) : World :=
  { World.start scene.settings scene.retryDelay scene.ledger.latest scene.origin with
    ledger := scene.ledger
    watchList := scene.watchList }

end Scene

/-- The chain is that of the scene but for its head, no other scanner is at work, and putting a
message back does not fail. -/
structure Steady (scene : Scene) (w : World) : Prop where
  settings : w.settings = scene.settings
  ledger : w.ledger = scene.source.ledgerAt w.ledger.latest
  alone : w.conflict = false
  calm : .rewind ∉ w.traps.map (·.operation)

def site (w : World) : Scan.Site :=
  ⟨w.ledger.latest, w.watchList, w.remembered, w.cursor, w.outbox⟩

def desk (w : World) : Publish.Desk :=
  ⟨w.outbox, w.bus⟩

def reader (w : World) : Consume.Reader :=
  ⟨w.bus, w.orders⟩

/-- What a scanner leaves alone. -/
def unscanned (w : World) : Bus × OrderTable × Nat :=
  (w.bus, w.orders, w.identities)

/-- What a publisher leaves alone. -/
def unpublished (w : World) : WatchList × List Watched × Cursor × OrderTable × Nat × Nat :=
  (w.watchList, w.remembered, w.cursor, w.orders, w.identities, w.bus.position)

/-- What a consumer leaves alone. -/
def unconsumed (w : World) : WatchList × List Watched × Cursor × Outbox × Nat :=
  (w.watchList, w.remembered, w.cursor, w.outbox, w.identities)

theorem operations_spring (op : Operation) (traps : List Trap) :
    (spring op traps).2.map (·.operation) = traps.map (·.operation) := by
  induction traps with
  | nil => rfl
  | cons t traps ih =>
      unfold spring
      split
      · split
        · rfl
        · split
          · rfl
          · rfl
      · rw [List.map_cons, List.map_cons, ih]

theorem fst_spring_of_not_mem {op : Operation} {traps : List Trap}
    (absent : op ∉ traps.map (·.operation)) : (spring op traps).1 = none := by
  induction traps with
  | nil => rfl
  | cons t traps ih =>
      rw [List.map_cons, List.mem_cons, not_or] at absent
      unfold spring
      rw [if_neg (Ne.symm absent.1)]
      exact ih absent.2

theorem snd_spring_of_not_mem {op : Operation} {traps : List Trap}
    (absent : op ∉ traps.map (·.operation)) : (spring op traps).2 = traps := by
  induction traps with
  | nil => rfl
  | cons t traps ih =>
      rw [List.map_cons, List.mem_cons, not_or] at absent
      unfold spring
      rw [if_neg (Ne.symm absent.1)]
      exact congrArg (t :: ·) (ih absent.2)

section

variable {α ε : Type} {op : Operation} {select : Fault → Option ε}
  {act : StateM World (Except ε α)} {w t : World} {reply : Except ε α}

theorem unlessTrapped_eq : unlessTrapped op select act w =
    (match (spring op w.traps).1.bind select with
      | some fault => (pure (.error fault) : StateM World (Except ε α))
      | none => act) { w with traps := (spring op w.traps).2 } := rfl

theorem unlessTrapped_cases (answered : unlessTrapped op select act w = (reply, t)) :
    ∃ traps, traps.map (·.operation) = w.traps.map (·.operation) ∧
      ((∃ fault, reply = .error fault) ∧ t = { w with traps := traps } ∨
        act { w with traps := traps } = (reply, t)) := by
  refine ⟨(spring op w.traps).2, operations_spring op w.traps, ?_⟩
  rw [unlessTrapped_eq] at answered
  cases sprung : (spring op w.traps).1.bind select with
  | some fault =>
      rw [sprung] at answered
      cases answered
      exact .inl ⟨⟨fault, rfl⟩, rfl⟩
  | none =>
      rw [sprung] at answered
      exact .inr answered

theorem answered_of_not_mem (absent : op ∉ w.traps.map (·.operation))
    (answered : unlessTrapped op select act w = (reply, t)) :
    act { w with traps := (spring op w.traps).2 } = (reply, t) := by
  rw [unlessTrapped_eq, fst_spring_of_not_mem absent] at answered
  exact answered

theorem interfere_bind_of_alone (source : UInt64) (alone : w.conflict = false) :
    (interfere source >>= fun _ => act) w = act w := by
  have unfolded : (interfere source >>= fun _ => act) w =
      act (if w.conflict then { w with conflict := false, cursor := ⟨source + 1⟩ } else w) := rfl
  rw [unfolded, alone]
  rfl

end

section

variable {scene : Scene} {v t : World}

theorem Steady.of_disturbs (steady : Steady scene v) (disturbs : Disturbs v t) : Steady scene t := by
  obtain ⟨latest, readings, failingKeys, traps, -, faults⟩ := disturbs
  refine ⟨steady.settings, ?_, steady.alone, ?_⟩
  · rw [steady.ledger]
    rfl
  · intro member
    obtain ⟨trap, among, rewind⟩ := List.mem_map.mp member
    rcases faults trap among with old | other
    · exact steady.calm (List.mem_map.mpr ⟨trap, old, rewind⟩)
    · exact other rewind

theorem Steady.of_same (steady : Steady scene v)
    (same : (t.settings, t.ledger, t.conflict) = (v.settings, v.ledger, v.conflict))
    (operations : t.traps.map (·.operation) = v.traps.map (·.operation)) : Steady scene t := by
  obtain ⟨settings, rest⟩ := Prod.mk.inj same
  obtain ⟨ledger, conflict⟩ := Prod.mk.inj rest
  exact ⟨settings ▸ steady.settings, ledger ▸ steady.ledger, conflict ▸ steady.alone,
    operations ▸ steady.calm⟩

theorem scanner_answers {stopped : Bool} {c : Scan.Call} {reply : Scan.Reply c}
    (steady : Steady scene v) (answer : scanner stopped c v = (reply, t)) :
    Steady scene t ∧ unscanned t = unscanned v ∧
      scene.source.answers c (site v) reply (site t) := by
  cases c with
  | chain c =>
      obtain ⟨traps, ops, ⟨failed, rfl⟩ | done⟩ := unlessTrapped_cases answer
      · exact ⟨steady.of_same rfl ops, rfl, .inr failed, rfl⟩
      · cases done
        refine ⟨steady.of_same rfl ops, rfl, .inl ?_, rfl⟩
        exact congrArg (Ledger.answer · c) steady.ledger
  | watchList c =>
      obtain ⟨traps, ops, ⟨failed, rfl⟩ | done⟩ := unlessTrapped_cases answer
      · exact ⟨steady.of_same rfl ops, rfl, .inr ⟨failed, rfl⟩⟩
      · cases c with
        | register w =>
            cases done
            exact ⟨steady.of_same rfl ops, rfl, .inl ⟨rfl, rfl⟩⟩
        | contains w =>
            cases done
            exact ⟨steady.of_same rfl ops, rfl, .inl ⟨rfl, rfl⟩⟩
  | cursor c =>
      cases c with
      | read =>
          obtain ⟨traps, ops, ⟨failed, rfl⟩ | done⟩ := unlessTrapped_cases answer
          · exact ⟨steady.of_same rfl ops, rfl, .inr ⟨failed, rfl⟩⟩
          · cases done
            exact ⟨steady.of_same rfl ops, rfl, .inl ⟨rfl, rfl⟩⟩
      | advance source target =>
          obtain ⟨traps, ops, ⟨failed, rfl⟩ | done⟩ := unlessTrapped_cases answer
          · exact ⟨steady.of_same rfl ops, rfl, .inr ⟨failed, rfl⟩⟩
          · rw [interfere_bind_of_alone (w := { v with traps := traps }) source steady.alone] at done
            cases done
            exact ⟨steady.of_same rfl ops, rfl, .inl ⟨rfl, rfl⟩⟩
  | outbox c =>
      obtain ⟨traps, ops, ⟨failed, rfl⟩ | done⟩ := unlessTrapped_cases answer
      · exact ⟨steady.of_same rfl ops, rfl, .inr ⟨failed, rfl⟩⟩
      · cases done
        exact ⟨steady.of_same rfl ops, rfl, .inl ⟨_, rfl, rfl⟩⟩
  | knows w =>
      cases answer
      refine ⟨steady, rfl, ?_, rfl⟩
      intro known
      rw [Bool.and_eq_true, List.contains_iff_mem] at known
      exact known.2
  | remember w =>
      cases answer
      exact ⟨steady.of_same rfl rfl, rfl, rfl⟩
  | stopRequested =>
      cases answer
      exact ⟨steady, rfl, rfl⟩

/-- A scanner's run in the world is one on its site. -/
theorem runs_scans {α : Type} {p : Program Scan.interface α} {w : World} {r : α}
    (steady : Steady scene w) (run : Runs scans p w r t) :
    Steady scene t ∧ unscanned t = unscanned w ∧ Runs scene.source.serves p (site w) r (site t) := by
  have admitted : ∀ c v reply u, Steady scene v ∧ unscanned v = unscanned w →
      scans c v reply u → (Steady scene u ∧ unscanned u = unscanned w) ∧
        scene.source.serves c (site v) reply (site u) := by
    rintro c v reply u ⟨steady, rest⟩ ⟨stopped, disturbed, disturbs, answer⟩
    obtain ⟨steady', rest', answers⟩ := scanner_answers (steady.of_disturbs disturbs) answer
    obtain ⟨latest, readings, failingKeys, traps, grown, -⟩ := disturbs
    exact ⟨⟨steady', rest'.trans rest⟩, latest, grown, answers⟩
  obtain ⟨⟨steady', rest⟩, run'⟩ := run.view admitted ⟨steady, rfl⟩
  exact ⟨steady', rest, run'⟩

theorem send_eq (key : String) (payload : List UInt8) :
    send key payload = unlessTrapped .send Fault.toBus? fun w =>
      if w.failingKeys.contains key then (.error .timedOut, w)
      else unlessTrapped .acknowledge Fault.toBus? (pure (.ok ()))
        { w with bus := w.bus.push key payload } := by
  unfold send
  refine congrArg (unlessTrapped .send Fault.toBus?) (funext fun w => ?_)
  change (if w.failingKeys.contains key = true then _ else _ : StateM World (Except BusFault Unit)) w = _
  split
  · rfl
  · rfl

theorem send_answers {key : String} {payload : List UInt8} {reply : Except BusFault Unit}
    (steady : Steady scene v) (answer : send key payload v = (reply, t)) :
    Steady scene t ∧ t.ledger = v.ledger ∧ unpublished t = unpublished v ∧
      Publish.Desk.serves (.send key payload) (desk v) reply (desk t) := by
  rw [send_eq] at answer
  obtain ⟨traps, ops, ⟨⟨fault, rfl⟩, rfl⟩ | done⟩ := unlessTrapped_cases answer
  · exact ⟨steady.of_same rfl ops, rfl, rfl, .inr ⟨fault, rfl, .inl rfl⟩⟩
  · split at done
    · cases done
      exact ⟨steady.of_same rfl ops, rfl, rfl, .inr ⟨.timedOut, rfl, .inl rfl⟩⟩
    · obtain ⟨traps', ops', ⟨⟨fault, rfl⟩, rfl⟩ | acknowledged⟩ := unlessTrapped_cases done
      · exact ⟨steady.of_same rfl (ops'.trans ops), rfl, rfl, .inr ⟨fault, rfl, .inr rfl⟩⟩
      · cases acknowledged
        exact ⟨steady.of_same rfl (ops'.trans ops), rfl, rfl, .inl ⟨rfl, rfl⟩⟩

theorem publisher_answers {c : Publish.Call} {reply : Publish.Reply c} (steady : Steady scene v)
    (answer : publisher c v = (reply, t)) :
    Steady scene t ∧ t.ledger = v.ledger ∧ unpublished t = unpublished v ∧
      Publish.Desk.serves c (desk v) reply (desk t) := by
  cases c with
  | outbox c =>
      obtain ⟨traps, ops, ⟨⟨fault, rfl⟩, rfl⟩ | done⟩ := unlessTrapped_cases answer
      · exact ⟨steady.of_same rfl ops, rfl, rfl, .inr ⟨fault, rfl, rfl⟩⟩
      · cases done
        exact ⟨steady.of_same rfl ops, rfl, rfl, .inl ⟨_, rfl, rfl⟩⟩
  | now =>
      cases answer
      exact ⟨steady.of_same rfl rfl, rfl, rfl, rfl⟩
  | send key payload => exact send_answers steady answer

theorem bus_answers {c : Bus.Call} {reply : Bus.interface.Reply c} (steady : Steady scene v)
    (answer : bus c v = (reply, t)) :
    Steady scene t ∧ t.ledger = v.ledger ∧ unconsumed t = unconsumed v ∧
      Consume.Reader.serves (.bus c) (reader v) reply (reader t) := by
  cases c with
  | next =>
      obtain ⟨traps, ops, ⟨failed, rfl⟩ | done⟩ := unlessTrapped_cases answer
      · exact ⟨steady.of_same rfl ops, rfl, rfl, .inr ⟨by simp, failed, rfl⟩⟩
      · cases done
        exact ⟨steady.of_same rfl ops, rfl, rfl, .inl ⟨rfl, rfl⟩⟩
  | commit d =>
      obtain ⟨traps, ops, ⟨failed, rfl⟩ | done⟩ := unlessTrapped_cases answer
      · exact ⟨steady.of_same rfl ops, rfl, rfl, .inr ⟨by simp, failed, rfl⟩⟩
      · cases done
        exact ⟨steady.of_same rfl ops, rfl, rfl, .inl ⟨rfl, rfl⟩⟩
  | rewind d =>
      have done := answered_of_not_mem steady.calm answer
      cases done
      exact ⟨steady.of_same rfl (operations_spring _ _), rfl, rfl, .inl ⟨rfl, rfl⟩⟩

theorem consumer_answers {c : Consume.Call} {reply : Consume.Reply c} (steady : Steady scene v)
    (answer : consumer c v = (reply, t)) :
    Steady scene t ∧ t.ledger = v.ledger ∧ unconsumed t = unconsumed v ∧
      Consume.Reader.serves c (reader v) reply (reader t) := by
  cases c with
  | bus c => exact bus_answers steady answer
  | orders c =>
      obtain ⟨traps, ops, ⟨⟨fault, rfl⟩, rfl⟩ | done⟩ := unlessTrapped_cases answer
      · exact ⟨steady.of_same rfl ops, rfl, rfl, .inr ⟨fault, trivial, rfl, rfl⟩, rfl⟩
      · cases done
        exact ⟨steady.of_same rfl ops, rfl, rfl, .inl rfl, rfl⟩

/-- A run in the world of a part that sees nothing of the chain is one on what it sees. -/
theorem runs_served {I : Interface} {α σ ρ : Type}
    {answer : (c : I.Call) → StateM World (I.Reply c)} {serve : Service I σ} {view : World → σ}
    {rest : World → ρ} (unseen : ∀ v u, Disturbs v u → view u = view v ∧ rest u = rest v)
    (answers : ∀ c v reply t, Steady scene v → answer c v = (reply, t) → Steady scene t ∧
      t.ledger = v.ledger ∧ rest t = rest v ∧ serve c (view v) reply (view t))
    {p : Program I α} {w : World} {r : α} (steady : Steady scene w)
    (run : Runs (served answer) p w r t) :
    Steady scene t ∧ w.ledger.latest ≤ t.ledger.latest ∧ rest t = rest w ∧
      Runs serve p (view w) r (view t) := by
  have admitted : ∀ c v reply u,
      Steady scene v ∧ w.ledger.latest ≤ v.ledger.latest ∧ rest v = rest w →
      served answer c v reply u →
        (Steady scene u ∧ w.ledger.latest ≤ u.ledger.latest ∧ rest u = rest w) ∧
          serve c (view v) reply (view u) := by
    rintro c v reply u ⟨steady, later, same⟩ ⟨disturbed, disturbs, answered⟩
    obtain ⟨steady', ledger, same', answers'⟩ :=
      answers c disturbed reply u (steady.of_disturbs disturbs) answered
    obtain ⟨seen, kept⟩ := unseen v disturbed disturbs
    rw [seen] at answers'
    have grown := disturbs.latest_le
    rw [← ledger] at grown
    exact ⟨⟨steady', UInt64.le_trans later grown, same'.trans (kept.trans same)⟩, answers'⟩
  obtain ⟨⟨steady', later, same⟩, run'⟩ := run.view admitted ⟨steady, UInt64.le_refl _, rfl⟩
  exact ⟨steady', later, same, run'⟩

theorem runs_publisher {α : Type} {p : Program Publish.interface α} {w : World} {r : α}
    (steady : Steady scene w) (run : Runs (served (I := Publish.interface) publisher) p w r t) :
    Steady scene t ∧ w.ledger.latest ≤ t.ledger.latest ∧ unpublished t = unpublished w ∧
      Runs Publish.Desk.serves p (desk w) r (desk t) := by
  refine runs_served ?_ (fun _ _ _ _ => publisher_answers) steady run
  rintro v u ⟨⟩
  exact ⟨rfl, rfl⟩

theorem runs_consumer {α : Type} {p : Program Consume.interface α} {w : World} {r : α}
    (steady : Steady scene w) (run : Runs (served (I := Consume.interface) consumer) p w r t) :
    Steady scene t ∧ w.ledger.latest ≤ t.ledger.latest ∧ unconsumed t = unconsumed w ∧
      Runs Consume.Reader.serves p (reader w) r (reader t) := by
  refine runs_served ?_ (fun _ _ _ _ => consumer_answers) steady run
  rintro v u ⟨⟩
  exact ⟨rfl, rfl⟩

end

end VaultTransfers.Session
