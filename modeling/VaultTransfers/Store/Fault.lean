import VaultTransfers.Json.Fault
import VaultTransfers.Transfer.Kind

/-!
What can go wrong with a store. The database may fail, a row may hold what no
row should hold, and a number may be too large for a column.
-/

namespace VaultTransfers

/-- A failure of the database or of the way to it. -/
inductive DatabaseFault where
  | timedOut
  | server (text : String)
  | missingColumn (name : String)
  /-- A null where a value is required; `column` is how the column was asked for. -/
  | nullColumn (column : String)
  | wrongType (column : String)
deriving DecidableEq, Repr

def DatabaseFault.message : DatabaseFault → String
  | timedOut => "pool timed out while waiting for an open connection"
  | server text => "error returned from database: " ++ text
  | missingColumn name => "no column found for name: " ++ name
  | nullColumn column => "error occurred while decoding column " ++ column
      ++ ": unexpected null; try decoding as an `Option`"
  | wrongType column => "error occurred while decoding column " ++ column ++ ": mismatched types"

/-- What is wrong with a row. -/
inductive Corruption where
  | negative (n : Int)
  | unknownName (name : UnknownName)
  | payload (fault : Json.ShapeFault)
  | noCursor
  | secondOpenWithdrawal (wallet : String)
  | other (reason : String)
deriving DecidableEq, Repr

def Corruption.message : Corruption → String
  | negative n => "negative integer " ++ toString n
  | unknownName name => name.message
  | payload fault => fault.message
  | noCursor => "crawler_state has no cursor row"
  | secondOpenWithdrawal wallet => "second in-progress withdrawal for " ++ wallet
  | other reason => reason

inductive StoreFault where
  | database (fault : DatabaseFault)
  | corrupt (what : Corruption)
  | outOfRange (value : UInt64)
deriving DecidableEq, Repr

def StoreFault.message : StoreFault → String
  | database fault => "Database error: " ++ fault.message
  | corrupt what => "Corrupt row: " ++ what.message
  | outOfRange value => "Value out of range for storage: " ++ toString value.toNat

end VaultTransfers
