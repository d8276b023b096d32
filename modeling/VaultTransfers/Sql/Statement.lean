import VaultTransfers.Json.Printer
import VaultTransfers.Powers
import VaultTransfers.Program
import VaultTransfers.Store.Fault
import VaultTransfers.Transfer.Order

/-!
Statements to a database and the rows that it gives back. A statement that
writes a record is made from a list of columns, each with the parameter that
goes into it, so that what a parameter means can be read off the statement.
-/

namespace VaultTransfers.Sql

/-- A value of a column or of a parameter. -/
inductive Value where
  | null
  | text (s : String)
  | integer (n : Int)
  /-- Microseconds from 2000-01-01. -/
  | timestamp (micros : Int)
  | json (j : Json)
  | identity (i : OrderId)
  | seconds (x : Binary64)

namespace Value

def ofOption (f : α → Value) : Option α → Value
  | some a => f a
  | none => null

def ofInstant (t : Instant) : Value :=
  timestamp t.microsSinceMillennium

end Value

structure Statement where
  text : String
  params : List Value

/-- The columns of a row by name. -/
abbrev Row := List (String × Value)

/-- The answer to a call that brings nothing back: it has gone through, or not. -/
abbrev Outcome := Except DatabaseFault Unit

/-- A server that never refuses such a call need not answer it. -/
instance : Coe Unit Outcome := ⟨.ok⟩

inductive Call where
  | begin
  | commit
  /-- Answered with the number of rows that it concerned. -/
  | execute (s : Statement)
  | fetch (s : Statement)

abbrev Reply : Call → Type
  | .begin | .commit => Outcome
  | .execute _ => Except DatabaseFault Nat
  | .fetch _ => Except DatabaseFault (List Row)

@[reducible]
def interface : Interface where
  Call := Call
  Reply := Reply

abbrev Task := ExceptT StoreFault (Program interface)

def orDatabaseFault : Except DatabaseFault α → Task α
  | .ok a => pure a
  | .error fault => throw (.database fault)

def orCorrupt : Except Corruption α → Task α
  | .ok a => pure a
  | .error what => throw (.corrupt what)

def execute (text : String) (params : List Value) : Task Nat := do
  orDatabaseFault (← ExceptT.lift (Program.perform (I := interface) (.execute ⟨text, params⟩)))

def fetch (text : String) (params : List Value) : Task (List Row) := do
  orDatabaseFault (← ExceptT.lift (Program.perform (I := interface) (.fetch ⟨text, params⟩)))

def begin : Task Unit := do
  orDatabaseFault (← ExceptT.lift (Program.perform (I := interface) .begin))

def commit : Task Unit := do
  orDatabaseFault (← ExceptT.lift (Program.perform (I := interface) .commit))

/-- A count as an integer of 63 bits, which is what columns hold. -/
def bigint (n : UInt64) : Except StoreFault Value :=
  if n.toNat < twoTo 63 then .ok (.integer n.toNat) else .error (.outOfRange n)

def optionalBigint : Option UInt64 → Except StoreFault Value
  | some n => bigint n
  | none => .ok .null

/-! Records as columns. -/

/-- What goes into a column of a written row. -/
inductive Source where
  | param (number : Nat)
  /-- A parameter whose text is read as a number. -/
  | numeric (number : Nat)
  | literal (text : String)
deriving DecidableEq, Repr

def Source.sql : Source → String
  | param number => "$" ++ toString number
  | numeric number => "$" ++ toString number ++ "::NUMERIC"
  | literal text => "'" ++ text ++ "'"

structure Column where
  name : String
  source : Source
deriving DecidableEq, Repr

namespace Column

/-- The value that a row gets under the parameters of a statement. -/
def value (params : List Value) (c : Column) : Value :=
  match c.source with
  | .param number | .numeric number => params.getD (number - 1) .null
  | .literal text => .text text

/-- The row that a statement with these columns writes. -/
def written (columns : List Column) (params : List Value) : Row :=
  columns.map fun c => (c.name, c.value params)

def names (columns : List Column) : String :=
  ", ".intercalate (columns.map Column.name)

def sources (columns : List Column) : String :=
  ", ".intercalate (columns.map fun c => c.source.sql)

def assignments (columns : List Column) : String :=
  ", ".intercalate (columns.map fun c => c.name ++ " = " ++ c.source.sql)

/-- Columns that take over what was to be inserted. -/
def takeovers (names : List String) : String :=
  ", ".intercalate (names.map fun name => name ++ " = EXCLUDED." ++ name)

end Column

/-- Inserts a row, or renews some columns of the row that has the same key. -/
def insertOrRenew (table : String) (columns : List Column) (key renewed : List String) : String :=
  "INSERT INTO " ++ table ++ " (" ++ Column.names columns ++ ") VALUES (" ++ Column.sources columns
    ++ ") ON CONFLICT (" ++ ", ".intercalate key ++ ") DO UPDATE SET " ++ Column.takeovers renewed

/-! Rows as records. Columns are looked at one by one, and the first that does not fit is told. -/

namespace Row

def shown (name : String) : String :=
  "\"" ++ name ++ "\""

def value (name : String) (row : Row) : Except DatabaseFault Value :=
  match row.lookup name with
  | some v => .ok v
  | none => .error (.missingColumn name)

/-- A column that may be null. -/
def optional (name : String) (read : Value → Option α) (row : Row) :
    Except DatabaseFault (Option α) := do
  match ← row.value name with
  | .null => .ok none
  | v =>
    match read v with
    | some a => .ok (some a)
    | none => .error (.wrongType (shown name))

def required (name : String) (read : Value → Option α) (row : Row) : Except DatabaseFault α := do
  match ← row.optional name read with
  | some a => .ok a
  | none => .error (.nullColumn (shown name))

end Row

namespace Value

def asText : Value → Option String
  | text s => some s
  | _ => none

def asInteger : Value → Option Int
  | integer n => some n
  | _ => none

def asInstant : Value → Option Instant
  | timestamp micros => Instant.ofMicrosSinceMillennium? micros
  | _ => none

def asJson : Value → Option Json
  | json j => some j
  | _ => none

def asIdentity : Value → Option OrderId
  | identity i => some i
  | _ => none

end Value

/-- A count that a column holds. -/
def nonnegative (n : Int) : Except Corruption UInt64 :=
  if 0 ≤ n then .ok (UInt64.ofNat n.toNat) else .error (.negative n)

def known (r : Except UnknownName α) : Except Corruption α :=
  match r with
  | .ok a => .ok a
  | .error unknown => .error (.unknownName unknown)

end VaultTransfers.Sql
