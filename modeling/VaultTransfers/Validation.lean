import VaultTransfers.Evm.Address
import VaultTransfers.Text.Blank

/-!
What people type, brought to the spelling that events carry: wallets become
checksummed addresses, transaction hashes lower-case words.
-/

namespace VaultTransfers.Validation

/-- Why an input is refused. The text is the input as it came. -/
inductive Fault where
  | missing (parameter : String)
  | invalidAddress (text : String)
  | invalidTxHash (text : String)
  | invalidParameter (reason : String)
deriving DecidableEq, Repr

def Fault.message : Fault → String
  | missing parameter => "Missing required parameter: " ++ parameter
  | invalidAddress text => "Invalid EVM address format: " ++ text
  | invalidTxHash text => "Invalid transaction hash: " ++ text
  | invalidParameter reason => "Invalid parameter: " ++ reason

/-- The digits behind `0x`, if they are hexadecimal and as many as asked for. -/
def markedDigits? (count : Nat) : List Char → Option (List Char)
  | '0' :: 'x' :: digits =>
    if digits.length = count ∧ digits.all Text.isHexDigit then some digits else none
  | _ => none

/-- An address in any letter case, between blanks, as its checksummed form. -/
def wallet (text : String) : Except Fault String :=
  let trimmed := Text.trim text.toList
  if trimmed = [] then .error (.missing "wallet_address")
  else match markedDigits? 40 trimmed with
    | some digits => .ok (Address.ofNat (Text.hexNumber digits)).checksummed
    | none => .error (.invalidAddress text)

/-- A transaction hash in any letter case, between blanks, in lower case. -/
def txHash (text : String) : Except Fault String :=
  let trimmed := Text.trim text.toList
  if trimmed = [] then .error (.missing "tx_hash")
  else match markedDigits? 64 trimmed with
    | some digits => .ok (Word.ofNat (Text.hexNumber digits)).text
    | none => .error (.invalidTxHash text)

/-- A chain id is positive. -/
def chainId (n : Int) : Except Fault Int :=
  if 0 < n then .ok n
  else .error (.invalidParameter ("chain_id must be positive, got " ++ toString n))

end VaultTransfers.Validation
