import VaultTransfers.Node.Fault
import VaultTransfers.Node.Log
import VaultTransfers.Program

/-!
What the scanner asks of the chain.
-/

namespace VaultTransfers.Chain

inductive Call where
  | latestBlock
  /-- The logs of a range of blocks, both ends included, of any of the emitters and with any of the
  first topics. -/
  | logs (first last : UInt64) (emitters : List Address) (topics : List Word)
  /-- Whether a transaction succeeded. -/
  | succeeded (txHash : Word)
  | blockTime (number : UInt64)
deriving DecidableEq

abbrev Value : Call → Type
  | .latestBlock => UInt64
  | .logs _ _ _ _ => List Log
  | .succeeded _ => Bool
  | .blockTime _ => Instant

def interface : Interface where
  Call := Call
  Reply := fun c => Except NodeFault (Value c)

end VaultTransfers.Chain
