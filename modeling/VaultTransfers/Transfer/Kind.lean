/-!
The closed sets of names that transfers carry: kinds of events, states of an
outbox row, directions and states of an order. Each has one spelling, in storage
and on the bus.
-/

namespace VaultTransfers

/-- A name that is not in its set. -/
structure UnknownName where
  kind : String
  name : String
deriving DecidableEq, Repr

def UnknownName.message (u : UnknownName) : String :=
  "Unknown " ++ u.kind ++ ": " ++ u.name

/-- The member of a set with a given spelling. -/
def named (kind : String) (spelling : α → String) (all : List α) (name : String) :
    Except UnknownName α :=
  match all.find? (spelling · = name) with
  | some a => .ok a
  | none => .error ⟨kind, name⟩

inductive EventKind where
  | deposit
  | withdrawalRequested
  | withdrawalCompleted
deriving DecidableEq, Repr

namespace EventKind

def all : List EventKind := [deposit, withdrawalRequested, withdrawalCompleted]

def text : EventKind → String
  | deposit => "deposit"
  | withdrawalRequested => "withdrawal_requested"
  | withdrawalCompleted => "withdrawal_completed"

def ofText : String → Except UnknownName EventKind :=
  named "event type" text all

end EventKind

/-- An outbox row waits, is held by a publisher, or has been sent. -/
inductive OutboxStatus where
  | unsent
  | processing
  | sent
deriving DecidableEq, Repr

namespace OutboxStatus

def all : List OutboxStatus := [unsent, processing, sent]

def text : OutboxStatus → String
  | unsent => "unsent"
  | processing => "processing"
  | sent => "sent"

def ofText : String → Except UnknownName OutboxStatus :=
  named "outbox status" text all

end OutboxStatus

inductive Direction where
  | deposit
  | withdrawal
deriving DecidableEq, Repr

namespace Direction

def all : List Direction := [deposit, withdrawal]

def text : Direction → String
  | deposit => "deposit"
  | withdrawal => "withdrawal"

def ofText : String → Except UnknownName Direction :=
  named "transfer type" text all

end Direction

inductive OrderStatus where
  | completed
  | inProgress
deriving DecidableEq, Repr

namespace OrderStatus

def all : List OrderStatus := [completed, inProgress]

def text : OrderStatus → String
  | completed => "completed"
  | inProgress => "in_progress"

def ofText : String → Except UnknownName OrderStatus :=
  named "order status" text all

end OrderStatus

theorem EventKind.ofText_text (k : EventKind) : ofText k.text = .ok k := by
  cases k <;> rfl

theorem OutboxStatus.ofText_text (s : OutboxStatus) : ofText s.text = .ok s := by
  cases s <;> rfl

theorem Direction.ofText_text (d : Direction) : ofText d.text = .ok d := by
  cases d <;> rfl

theorem OrderStatus.ofText_text (s : OrderStatus) : ofText s.text = .ok s := by
  cases s <;> rfl

end VaultTransfers
