import VaultTransfers.Json.Binary64

/-!
JSON values. The members of an object are kept in the order of their names, each
name once; a name that comes again replaces the member it had.
-/

namespace VaultTransfers

/-- An integer that fits 64 bits, signed or unsigned, or else a binary64 number. -/
inductive JsonNumber where
  | int (n : Int)
  | float (x : Binary64)
deriving DecidableEq, Repr

inductive Json where
  | null
  | bool (b : Bool)
  | num (n : JsonNumber)
  | str (s : String)
  | arr (items : List Json)
  | obj (members : List (String × Json))

namespace Json

/-- The number of a 64-bit count. -/
def ofUInt64 (n : UInt64) : Json :=
  .num (.int n.toNat)

def ofNat (n : Nat) : Json :=
  .num (.int n)

def ofInt (n : Int) : Json :=
  .num (.int n)

/-- Puts a member at its place in a list sorted by name. -/
def insertMember (name : String) (value : α) : List (String × α) → List (String × α)
  | [] => [(name, value)]
  | (other, old) :: rest =>
    if name < other then (name, value) :: (other, old) :: rest
    else if name = other then (name, value) :: rest
    else (other, old) :: insertMember name value rest

/-- The object of members in any order. -/
def ofMembers (members : List (String × Json)) : Json :=
  .obj (members.foldl (fun sorted m => insertMember m.1 m.2 sorted) [])

def ofOption (f : α → Json) : Option α → Json
  | some a => f a
  | none => .null

/-- The member of an object, if it has one of that name. -/
def member? (name : String) : Json → Option Json
  | .obj members => members.lookup name
  | _ => none

end Json

end VaultTransfers
