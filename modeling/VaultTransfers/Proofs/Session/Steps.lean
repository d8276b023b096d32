import Mathlib.Logic.Relation
import VaultTransfers.Proofs.Program.Runs
import VaultTransfers.Session.Run

/-!
Sessions as sequences of steps: ticks of the scanner, batches of the publisher and
turns of the consumer, in any order. Before each call the head of the chain may
move on, time may pass and faults may be set or taken away. A message that cannot
be put back is lost to the consumer, so no fault is set on putting back.
-/

namespace VaultTransfers.Session

open Program (Runs)
open Relation (ReflTransGen)

/-- What may happen between any two calls. -/
inductive Disturbs (w : World) : World → Prop where
  | mk (latest : UInt64) (readings : Nat) (failingKeys : List String) (traps : List Trap)
      (grown : w.ledger.latest ≤ latest)
      (faults : ∀ t ∈ traps, t ∈ w.traps ∨ t.operation ≠ .rewind) :
      Disturbs w { w with
        ledger := { w.ledger with latest := latest }
        readings := readings
        failingKeys := failingKeys
        traps := traps }

theorem Disturbs.refl (w : World) : Disturbs w w :=
  .mk w.ledger.latest w.readings w.failingKeys w.traps (UInt64.le_refl _) fun _ => .inl

theorem Disturbs.of_faults (w : World) (failingKeys : List String) {traps : List Trap}
    (faults : ∀ t ∈ traps, t.operation ≠ .rewind) :
    Disturbs w { w with failingKeys := failingKeys, traps := traps } :=
  .mk w.ledger.latest w.readings failingKeys traps (UInt64.le_refl _) fun t member =>
    .inr (faults t member)

theorem Disturbs.latest_le {w t : World} (disturbs : Disturbs w t) :
    w.ledger.latest ≤ t.ledger.latest := by
  obtain ⟨latest, readings, failingKeys, traps, grown, -⟩ := disturbs
  exact grown

/-- The world's answers, each after a disturbance. -/
def served {I : Interface} (answer : (c : I.Call) → StateM World (I.Reply c)) : Service I World :=
  fun c w reply t => ∃ v, Disturbs w v ∧ answer c v = (reply, t)

/-- The answers to a scanner, which may be told to stop at any time. -/
def scans : Service Scan.interface World :=
  fun c w reply t => ∃ stopped, served (scanner stopped) c w reply t

inductive Step (w : World) : World → Prop where
  | disturb {t : World} (disturbs : Disturbs w t) : Step w t
  | tick {t : World} {r : Except Scan.Fault Scan.Summary}
      (run : Runs scans (Scan.tick (plan w)).run w r t) : Step w t
  | publish {t : World} {r : Except StoreFault Publish.Summary}
      (run : Runs (served publisher) (Publish.batch (.ofSettings w.settings)).run w r t) : Step w t
  | consume {t : World} {r : Consume.Turn}
      (run : Runs (served consumer) (Consume.turn (freshId w).1) (freshId w).2 r t) : Step w t

theorem runs_interpret_served {I : Interface} {α : Type}
    (answer : (c : I.Call) → StateM World (I.Reply c)) (p : Program I α) (w : World) :
    Runs (served answer) p w (p.interpret answer w).1 (p.interpret answer w).2 :=
  Program.runs_interpret id (fun _ v => ⟨v, .refl v, rfl⟩) p w

/-- The world behind an act. -/
def World.after {α : Type} (act : StateM World α) (w : World) : World :=
  (act w).2

theorem step_tick (stopped : Bool) (w : World) : Step w (w.after (tick stopped)) :=
  .tick (Program.runs_interpret id (fun _ v => ⟨stopped, v, .refl v, rfl⟩) _ w)

theorem step_publish (w : World) : Step w (w.after publish) :=
  .publish (runs_interpret_served (I := Publish.interface) publisher _ w)

theorem steps_run (turns pauses : Nat) (w : World) :
    ReflTransGen Step w (w.after (Consume.run consumer freshId turns pauses)) := by
  induction turns generalizing pauses w with
  | zero => exact .refl
  | succ turns ih =>
      have taken : Step w ((Consume.turn (freshId w).1).interpret consumer (freshId w).2).2 :=
        .consume (runs_interpret_served (I := Consume.interface) consumer _ _)
      rw [World.after, Consume.run_succ]
      revert taken
      generalize (Consume.turn (freshId w).1).interpret consumer (freshId w).2 = ended
      obtain ⟨r, t⟩ := ended
      intro taken
      cases r with
      | proceed => exact .head taken (ih pauses t)
      | stop => exact .single taken
      | pause =>
          cases pauses with
          | zero => exact .single taken
          | succ pauses => exact .head taken (ih pauses t)

theorem steps_consumeFor (duration : Nat) (w : World) :
    ReflTransGen Step w (w.after (consumeFor duration)) :=
  steps_run _ _ w

theorem steps_repeated {act : StateM World Unit} (each : ∀ w, Step w (w.after act)) (n : Nat)
    (w : World) : ReflTransGen Step w (w.after (repeated act n)) := by
  induction n generalizing w with
  | zero => exact .refl
  | succ n ih => exact .head (each w) (ih (w.after act))

theorem steps_scanFor (every duration : Nat) (w : World) :
    ReflTransGen Step w (w.after (scanFor every duration)) :=
  steps_repeated (step_tick false) _ w

theorem steps_publishFor (every duration : Nat) (w : World) :
    ReflTransGen Step w (w.after (publishFor every duration)) :=
  steps_repeated step_publish _ w

end VaultTransfers.Session
