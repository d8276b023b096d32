import VaultTransfers.Session.Services

/-!
The parts of the pipeline at work in a world: one tick, one batch, one message
or one request at a time, or for some while.
-/

namespace VaultTransfers.Session

def runTask (answer : (c : I.Call) → StateM World (I.Reply c)) (t : ExceptT ε (Program I) α) :
    StateM World (Except ε α) :=
  Program.interpret answer t.run

def plan (w : World) : Scan.Plan :=
  .ofSettings w.settings

/-- One tick of the scanner; `stopped` is whether it is to stop before the first chunk. -/
def tick (stopped : Bool) : StateM World (Except Scan.Fault Scan.Summary) := do
  runTask (scanner stopped) (Scan.tick (plan (← get)))

def resolveRange (first last : UInt64) : StateM World (Except Scan.Fault (List VaultEvent)) := do
  runTask (scanner false) (Scan.resolveRange (plan (← get)) first last)

/-- One batch of the publisher. -/
def publish : StateM World (Except StoreFault Publish.Summary) := do
  runTask publisher (Publish.batch (.ofSettings (← get).settings))

def apply (m : Message) : StateM World (Except Materialize.Fault Materialize.Applied) := do
  runTask orders (Materialize.apply (← freshId) m)

def process (bytes : List UInt8) : StateM World (Except Materialize.Fault Materialize.Applied) := do
  runTask orders (Materialize.process (← freshId) bytes)

def request (r : Http.Request) : StateM World Http.Response := do
  (Http.answer (← get).settings.chainId r).interpret server

/-- Does something so many times. -/
def repeated (act : StateM World Unit) : Nat → StateM World Unit
  | 0 => return
  | n + 1 => do
    act
    repeated act n

/-- How often a timer goes off in a while, counting the start. -/
def ticksIn (every duration : Nat) : Nat :=
  duration / every + 1

/-- Scans at intervals of milliseconds. A tick that fails is tried again by the next. -/
def scanFor (every duration : Nat) : StateM World Unit :=
  repeated (discard (tick false)) (ticksIn every duration)

def publishFor (every duration : Nat) : StateM World Unit :=
  repeated (discard publish) (ticksIn every duration)

/-- The pauses that fit into a while; without a delay, as many as there are milliseconds. -/
def pausesIn (delay duration : Nat) : Nat :=
  if delay = 0 then duration else duration / delay

/-- Consumes the bus until it is read to its end or the time is over. -/
def consumeFor (duration : Nat) : StateM World Consume.End := do
  let w ← get
  let pauses := pausesIn w.retryDelay duration
  Consume.run consumer freshId (w.bus.unread + pauses + 1) pauses

end VaultTransfers.Session
