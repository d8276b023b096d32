import VaultTransfers.Json.Basic
import VaultTransfers.Store.Fault
import VaultTransfers.Validation

/-!
Responses over HTTP. Every response may be read by pages of any origin.
-/

namespace VaultTransfers.Http

inductive Body where
  | empty
  | json (j : Json)
  | text (t : String)

def Body.contentType : Body → Option String
  | empty => none
  | json _ => some "application/json"
  | text _ => some "text/plain; charset=utf-8"

structure Response where
  status : Nat
  contentType : Option String
  /-- The methods that the route has, where the method of the request is none of them. -/
  allow : Option String
  /-- The origins whose pages may read the response. -/
  allowOrigin : String
  /-- The methods that a page may use; only told when it asks beforehand. -/
  allowMethods : Option String
  body : Body

namespace Response

def of (status : Nat) (body : Body) : Response where
  status := status
  contentType := body.contentType
  allow := none
  allowOrigin := "*"
  allowMethods := none
  body := body

/-- The answer to a page that asks beforehand. -/
def preflight : Response :=
  { of 200 .empty with allowMethods := some "*" }

def withAllow (methods : String) (r : Response) : Response :=
  { r with allow := some methods }

/-- The same response with its body left out. -/
def headOnly (r : Response) : Response :=
  { r with body := .empty }

def data (status : Nat) (j : Json) : Response :=
  of status (.json (.ofMembers [("data", j)]))

end Response

/-- Why a request that was understood is not answered with data. -/
inductive Refusal where
  | badRequest (reason : String)
  | orderNotFound
  | store (fault : StoreFault)
  | invalidAddress
  | invalidTxHash
  | invalidParameter (reason : String)
deriving DecidableEq, Repr

namespace Refusal

def ofValidation : Validation.Fault → Refusal
  | .missing parameter => badRequest ("Missing parameter: " ++ parameter)
  | .invalidAddress _ => invalidAddress
  | .invalidTxHash _ => invalidTxHash
  | .invalidParameter reason => invalidParameter reason

def message : Refusal → String
  | badRequest reason => "Invalid request: " ++ reason
  | orderNotFound => "order_not_found"
  | store fault => "Database error: " ++ fault.message
  | invalidAddress => "Invalid address format"
  | invalidTxHash => "Invalid transaction hash format"
  | invalidParameter reason => "Invalid parameter: " ++ reason

/-- What the client is told; the state of the database is not its business. -/
def clientMessage : Refusal → String
  | store _ => "Database error occurred"
  | r => r.message

def status : Refusal → Nat
  | badRequest _ | invalidAddress | invalidTxHash | invalidParameter _ => 400
  | orderNotFound => 404
  | store _ => 500

def response (r : Refusal) : Response :=
  .of r.status (.json (.ofMembers [("error", .str r.clientMessage)]))

end Refusal

end VaultTransfers.Http
