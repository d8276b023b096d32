import VaultTransfers.Pipeline.Materialize

/-!
The consumer loop. A turn reads one message and applies it; its offset is
committed only then. A message that cannot be applied is read again after a
pause. A commit that fails costs no more than a repetition.
-/

namespace VaultTransfers.Consume

inductive Call where
  | bus (c : Bus.Call)
  | orders (c : OrderTable.Call)
deriving DecidableEq

abbrev Reply : Call → Type
  | .bus c => Bus.interface.Reply c
  | .orders c => OrderTable.interface.Reply c

def interface : Interface where
  Call := Call
  Reply := Reply

def askBus (c : Bus.Call) : Program interface (Bus.interface.Reply c) :=
  Program.perform (I := interface) (.bus c)

/-- A program on the table of orders, as part of the loop. -/
def onOrders (p : Program OrderTable.interface α) : Program interface α :=
  p.interpret fun c => Program.perform (I := interface) (.orders c)

/-- How a turn ends: the loop goes on at once, or after a pause, or not at all. -/
inductive Turn where
  | proceed
  | pause
  | stop
deriving DecidableEq, Repr

/-- Applies a message and commits it, or asks for it again. -/
def handle (fresh : OrderId) (d : Delivery) : Program interface Turn := do
  match ← onOrders (Materialize.process fresh d.payload).run with
  | .ok _ =>
    let _ ← askBus (.commit d)
    return .proceed
  | .error _ =>
    let _ ← askBus (.rewind d)
    return .pause

def turn (fresh : OrderId) : Program interface Turn := do
  match ← askBus .next with
  | .ok d => handle fresh d
  | .error .closed => return .stop
  | .error .timedOut => return .pause

/-- Why the loop has ended. -/
inductive End where
  | closed
  | cancelled
deriving DecidableEq, Repr

section

variable {σ : Type} (answer : (c : Call) → StateM σ (interface.Reply c)) (fresh : StateM σ OrderId)

/-- Takes turns until the bus is closed, or until there has been a pause too many. A turn either
pauses or has done with a message, so the turns that are needed are no more than the messages and
pauses together, and a last one. -/
def run : (turns pauses : Nat) → StateM σ End
  | 0, _ => return .cancelled
  | turns + 1, pauses => do
    match ← (turn (← fresh)).interpret answer, pauses with
    | .proceed, pauses => run turns pauses
    | .stop, _ => return .closed
    | .pause, 0 => return .cancelled
    | .pause, pauses + 1 => run turns pauses

theorem run_succ (turns pauses : Nat) (s : σ) :
    run answer fresh (turns + 1) pauses s =
      (match ((turn (fresh s).1).interpret answer (fresh s).2).1, pauses with
        | .proceed, pauses => run answer fresh turns pauses
        | .stop, _ => pure .closed
        | .pause, 0 => pure .cancelled
        | .pause, pauses + 1 => run answer fresh turns pauses)
      ((turn (fresh s).1).interpret answer (fresh s).2).2 := rfl

end

end VaultTransfers.Consume
