import VaultTransfers.Json.Printer
import VaultTransfers.Json.Record
import VaultTransfers.Node.Chain

/-!
Asking a node over JSON-RPC. A request that is lost, or answered with an error,
is sent again, up to three times; every request has a number of its own, counted
from one over the client's life. What the last reply says is the outcome.
-/

namespace VaultTransfers.Node

structure Request where
  /-- The numbers are not bounded here. A counter of 64 bits agrees with them as long as the client
  has sent fewer than 2^64 requests, and would begin again behind them. -/
  id : Nat
  method : String
  params : Json

def Request.toJson (r : Request) : Json :=
  .ofMembers
    [("jsonrpc", .str "2.0"), ("id", .ofNat r.id), ("method", .str r.method), ("params", r.params)]

/-- What becomes of a request. -/
inductive Reply where
  | lost
  | answered (status : Nat) (body : List UInt8)
deriving DecidableEq, Repr

/-- Exchanges with the node, each of one request and its reply. -/
def exchange : Interface where
  Call := Request
  Reply := fun _ => Reply

/-- An error that the node reports. -/
structure Report where
  code : Int
  message : String
deriving DecidableEq, Repr

namespace Report

inductive Field where
  | code
  | message
deriving DecidableEq, Repr

def layout : Json.Layout where
  title := "Report"
  Field := Field
  Value
    | .code => Int
    | .message => String
  decEq := inferInstance
  name
    | .code => "code"
    | .message => "message"
  all := [.code, .message]
  absent := fun _ => none
  absentItem := fun _ => none

def readField : (f : layout.Field) → Json.Reader (layout.Value f)
  | .code => Json.leaf Json.fitInt64
  | .message => Json.leaf Json.fitString

def ofDraft (d : layout.Draft) : Except Json.ShapeFault Report := do
  let code ← layout.require d .code
  let message ← layout.require d .message
  .ok ⟨code, message⟩

end Report

/-- The body of a reply: an error, which wins, or a result. -/
structure Envelope where
  result : Option Json
  error : Option Report

namespace Envelope

inductive Field where
  | result
  | error
deriving DecidableEq, Repr

/-- Either part may be missing, in an object as in a list. -/
def layout : Json.Layout where
  title := "Envelope"
  Field := Field
  Value
    | .result => Option Json
    | .error => Option Report
  decEq := inferInstance
  name
    | .result => "result"
    | .error => "error"
  all := [.result, .error]
  absent
    | .result | .error => some none
  absentItem
    | .result | .error => some none

def readField (depth : Nat) : (f : layout.Field) → Json.Reader (layout.Value f)
  | .result => Json.optional (Json.value depth)
  | .error => Json.optional (Report.layout.record depth (fun _ => Report.readField) Report.ofDraft)

def ofDraft (d : layout.Draft) : Except Json.ShapeFault Envelope := do
  let result ← layout.require d .result
  let error ← layout.require d .error
  .ok ⟨result, error⟩

def ofBytes (bytes : List UInt8) : Except Json.ReadFault Envelope :=
  Json.whole (layout.record Json.nestingLimit readField ofDraft) (Text.symbols bytes)

end Envelope

/-- What a reply says. A result that is missing is null. -/
def outcome (method : String) (decode : Json → Except Json.ShapeFault α) :
    Reply → Except NodeFault α
  | .lost => .error (.exchange .transport)
  | .answered status body =>
    if 400 ≤ status ∧ status < 600 then .error (.exchange (.status status))
    else match Envelope.ofBytes body with
      | .error _ => .error (.exchange .body)
      | .ok envelope =>
        match envelope.error with
        | some report => .error (.reported report.code report.message)
        | none =>
          match decode (envelope.result.getD .null) with
          | .ok a => .ok a
          | .error fault => .error (.result method (.shape fault))

/-- Programs that number their requests; the state is the number of the next one. -/
abbrev Client := StateT Nat (Program exchange)

/-- How often a request is sent again. -/
def maxRetries : Nat := 3

def send (method : String) (params : Json) : Client Reply := fun id => do
  let reply ← Program.perform (I := exchange) ⟨id, method, params⟩
  return (reply, id + 1)

/-- Sends a request until its outcome is not transient or no retry is left. -/
def attempt (method : String) (params : Json) (decode : Json → Except Json.ShapeFault α) :
    (retries : Nat) → Client (Except NodeFault α)
  | 0 => do return outcome method decode (← send method params)
  | retries + 1 => do
    match outcome method decode (← send method params) with
    | .ok a => return .ok a
    | .error fault =>
      if fault.isTransient then attempt method params decode retries else return .error fault

def request (method : String) (params : Json) (decode : Json → Except Json.ShapeFault α) :
    Client (Except NodeFault α) :=
  attempt method params decode maxRetries

/-- A block number as requests spell it. -/
def hexBlock (n : UInt64) : Json :=
  .str (String.ofList ('0' :: 'x' :: Nat.toDigits 16 n.toNat))

def logFilter (first last : UInt64) (emitters : List Address) (topics : List Word) : Json :=
  .ofMembers
    [("fromBlock", hexBlock first), ("toBlock", hexBlock last),
     ("address", .arr (emitters.map (.str ·.text))),
     ("topics", .arr [.arr (topics.map (.str ·.text))])]

/-- A result that may be null. -/
def nullable (decode : Json → Except Json.ShapeFault α) : Json → Except Json.ShapeFault (Option α)
  | .null => .ok none
  | j => (decode j).map some

/-- A block's timestamp as an instant. -/
def timeOf (method : String) (seconds : UInt64) : Except NodeFault Instant :=
  match Instant.ofUnix? seconds.toNat with
  | some t => .ok t
  | none => .error (.result method (.timestamp seconds))

/-- Requires the part of the chain that was asked for to be there. -/
def found (what : Absent) (use : α → Except NodeFault β) :
    Except NodeFault (Option α) → Except NodeFault β
  | .error fault => .error fault
  | .ok none => .error (.notFound what)
  | .ok (some a) => use a

/-- The chain as a node tells of it. -/
def answer : (c : Chain.Call) → Client (Chain.interface.Reply c)
  | .latestBlock => request "eth_blockNumber" (.arr []) quantity
  | .logs first last emitters topics =>
    request "eth_getLogs" (.arr [logFilter first last emitters topics]) Log.listOfJson
  | .succeeded txHash => do
    let receipt ← request "eth_getTransactionReceipt" (.arr [.str txHash.text])
      (nullable Receipt.ofJson)
    return found (.receipt txHash) (fun r => .ok r.succeeded) receipt
  | .blockTime number => do
    let header ← request "eth_getBlockByNumber" (.arr [hexBlock number, .bool false])
      (nullable BlockHeader.ofJson)
    return found (.block number) (fun h => timeOf "eth_getBlockByNumber" h.timestamp) header

end VaultTransfers.Node
