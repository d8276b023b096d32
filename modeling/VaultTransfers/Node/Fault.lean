import VaultTransfers.Evm.Address
import VaultTransfers.Json.Fault

/-!
What can go wrong when a node of the chain is asked. Only a lost exchange and an
error that the node reports are worth another try.
-/

namespace VaultTransfers

/-- Why an exchange gave no reply that could be read. -/
inductive ExchangeFault where
  | transport
  | status (code : Nat)
  | body
deriving DecidableEq, Repr

def ExchangeFault.message : ExchangeFault → String
  | transport => "transport"
  | status code => "status " ++ toString code
  | body => "body"

/-- Why a result is not what the method should give. -/
inductive ResultFault where
  | shape (fault : Json.ShapeFault)
  | timestamp (seconds : UInt64)
  | other (reason : String)
deriving DecidableEq, Repr

def ResultFault.message : ResultFault → String
  | shape fault => fault.message
  | timestamp seconds => "timestamp " ++ toString seconds.toNat ++ " out of range"
  | other reason => reason

/-- What the node does not know. -/
inductive Absent where
  | receipt (txHash : Word)
  | block (number : UInt64)
  | other (what : String)
deriving DecidableEq, Repr

def Absent.message : Absent → String
  | receipt txHash => "receipt for " ++ txHash.text
  | block number => "block " ++ toString number.toNat
  | other what => what

inductive NodeFault where
  | exchange (fault : ExchangeFault)
  | reported (code : Int) (message : String)
  | result (method : String) (fault : ResultFault)
  | notFound (what : Absent)
deriving DecidableEq, Repr

namespace NodeFault

def message : NodeFault → String
  | exchange fault => "HTTP error: " ++ fault.message
  | reported code message => "RPC error " ++ toString code ++ ": " ++ message
  | result method fault => "Malformed RPC response for " ++ method ++ ": " ++ fault.message
  | notFound what => "Not found: " ++ what.message

/-- Whether the same request is worth another try. -/
def isTransient : NodeFault → Bool
  | exchange _ | reported _ _ => true
  | result _ _ | notFound _ => false

end NodeFault

end VaultTransfers
