import VaultTransfers.Http.Request
import VaultTransfers.Http.Response
import VaultTransfers.Json.Record
import VaultTransfers.Store.OrderTable
import VaultTransfers.Store.WatchList

/-!
The interface to users. A wallet is registered by its address, once; an order is
looked up by the hash of the transaction that made or completed it.
-/

namespace VaultTransfers.Http

inductive Call where
  | watchList (c : WatchList.Call)
  | orders (c : OrderTable.Call)
deriving DecidableEq

abbrev Reply : Call → Type
  | .watchList c => WatchList.interface.Reply c
  | .orders c => OrderTable.interface.Reply c

def interface : Interface where
  Call := Call
  Reply := Reply

abbrev Task := ExceptT Refusal (Program interface)

def ask (c : Call) : Program interface (Reply c) :=
  Program.perform (I := interface) c

def orRefuse (refusal : ε → Refusal) : Except ε α → Task α
  | .ok a => pure a
  | .error e => throw (refusal e)

def respond (t : Task Response) : Program interface Response := do
  match ← t.run with
  | .ok response => return response
  | .error refusal => return refusal.response

/-- What a registration asks for. -/
structure Registration where
  wallet : String
  /-- The configured chain, if none is given. -/
  chainId : Option Int
deriving DecidableEq, Repr

namespace Registration

inductive Field where
  | wallet
  | chainId
deriving DecidableEq, Repr

/-- An object may leave the chain out, a list may not. -/
def layout : Json.Layout where
  title := "Registration"
  Field := Field
  Value
    | .wallet => String
    | .chainId => Option Int
  decEq := inferInstance
  name
    | .wallet => "wallet_address"
    | .chainId => "chain_id"
  all := [.wallet, .chainId]
  absent
    | .wallet => none
    | .chainId => some none
  absentItem := fun _ => none

def readField : (f : layout.Field) → Json.Reader (layout.Value f)
  | .wallet => Json.leaf Json.fitString
  | .chainId => Json.optional (Json.leaf Json.fitInt64)

def ofDraft (d : layout.Draft) : Except Json.ShapeFault Registration := do
  let wallet ← layout.require d .wallet
  let chainId ← layout.require d .chainId
  .ok ⟨wallet, chainId⟩

def ofBytes (bytes : List UInt8) : Except Json.ReadFault Registration :=
  Json.whole (layout.record Json.nestingLimit (fun _ => readField) ofDraft) (Text.symbols bytes)

end Registration

/-- The registration in a request's body, or the response to a body that is none. -/
def registrationOf (r : Request) : Except Response Registration :=
  if !r.isJson then
    .error (.of 415 (.text "Expected request with `Content-Type: application/json`"))
  else match Registration.ofBytes r.body with
    | .ok registration => .ok registration
    | .error (.shape _) =>
      .error (.of 422 (.text "Failed to deserialize the JSON body into the target type"))
    | .error _ => .error (.of 400 (.text "Failed to parse the request body as JSON"))

/-- Registers a wallet; the status tells whether it is new. -/
def register (defaultChain : Int) (r : Registration) : Task Response := do
  let wallet ← orRefuse .ofValidation (Validation.wallet r.wallet)
  let chainId ← orRefuse .ofValidation (Validation.chainId (r.chainId.getD defaultChain))
  let created ← orRefuse .store (← ask (.watchList (.register ⟨wallet, chainId⟩)))
  return .data (if created then 201 else 200) (.ofMembers
    [("wallet_address", .str wallet), ("chain_id", .ofInt chainId), ("created", .bool created)])

def findOrder (txHash : String) : Task Response := do
  let txHash ← orRefuse .ofValidation (Validation.txHash txHash)
  match ← orRefuse .store (← ask (.orders (.byTransaction txHash))) with
  | some order => return .data 200 order.toJson
  | none => throw .orderNotFound

/-- The places of the interface. -/
inductive Route where
  | addresses
  /-- An order by a hash, as it stands in the path. -/
  | order (txHash : List Char)
deriving DecidableEq, Repr

namespace Route

def ofPath? (path : List Char) : Option Route :=
  match (segments path).map String.ofList with
  | ["", "api", "addresses"] => some addresses
  | ["", "api", "orders", txHash] => if txHash = "" then none else some (order txHash.toList)
  | _ => none

/-- The methods that a route has. -/
def methods : Route → String
  | addresses => "POST"
  | order _ => "GET,HEAD"

end Route

def answerOrder (txHash : List Char) : Program interface Response :=
  match Text.ofUtf8? (percentDecoded txHash) with
  | some decoded => respond (findOrder (String.ofList decoded))
  | none => return .of 400 (.text "Invalid URL: Invalid UTF-8 in `tx_hash`")

/-- Answers a request whose method the route has, and no other. -/
def Route.answer? (defaultChain : Int) (r : Request) : Route → Option (Program interface Response)
  | addresses =>
    if r.method = "POST" then
      match registrationOf r with
      | .ok registration => some (respond (register defaultChain registration))
      | .error response => some (return response)
    else none
  | order txHash =>
    if r.method = "GET" then some (answerOrder txHash)
    else if r.method = "HEAD" then some do return (← answerOrder txHash).headOnly
    else none

/-- The response where no route answers. -/
def unanswered (r : Request) (status : Nat) : Response :=
  if r.method = "OPTIONS" then .preflight else .of status .empty

/-- Answers a request. -/
def answer (defaultChain : Int) (r : Request) : Program interface Response :=
  match Route.ofPath? (pathOf r.target) with
  | none => return unanswered r 404
  | some route =>
    match route.answer? defaultChain r with
    | some program => program
    | none => return (unanswered r 405).withAllow route.methods

end VaultTransfers.Http
