import VaultTransfers.Json.Skip
import VaultTransfers.Powers

/-!
Records with named fields, read from text or from a value. From an object the
fields may come in any order and with other members between them; from a list
they come in the order of their declaration. A draft holds the fields read so
far; what it lacks is found out at the end.
-/

namespace VaultTransfers.Json

/-- The fields of a kind of record. -/
structure Layout where
  /-- The record's name in messages. -/
  title : String
  Field : Type
  Value : Field → Type
  decEq : DecidableEq Field
  name : Field → String
  /-- All fields, in the order of their declaration. -/
  all : List Field
  /-- What a field is when an object lacks it. -/
  absent : (f : Field) → Option (Value f)
  /-- What a field is when a list ends before it. -/
  absentItem : (f : Field) → Option (Value f)

namespace Layout

variable (L : Layout)

instance : DecidableEq L.Field := L.decEq

/-- The values of the fields that have been read. -/
abbrev Draft := (f : L.Field) → Option (L.Value f)

def blank : L.Draft := fun _ => none

def set (d : L.Draft) (f : L.Field) (v : L.Value f) : L.Draft :=
  fun g => if h : f = g then some (h ▸ v) else d g

def field? (name : String) : Option L.Field :=
  L.all.find? (L.name · = name)

/-- The value of a field, once all has been read. -/
def require (d : L.Draft) (f : L.Field) : Except ShapeFault (L.Value f) :=
  match d f with
  | some v => .ok v
  | none =>
    match L.absent f with
    | some v => .ok v
    | none => .error (.missingField (L.name f))

theorem set_same (d : L.Draft) (f : L.Field) (v : L.Value f) : L.set d f v f = some v := by
  simp [set]

theorem set_other (d : L.Draft) {f g : L.Field} (v : L.Value f) (h : f ≠ g) :
    L.set d f v g = d g := by
  simp [set, h]

/-- Sets the fields of a list that ended too early to what they are when absent; `index` is the
number of elements read. -/
def fillAbsent (d : L.Draft) (index : Nat) : List L.Field → Except ShapeFault L.Draft
  | [] => .ok d
  | f :: fs =>
    match L.absentItem f with
    | some v => fillAbsent (L.set d f v) (index + 1) fs
    | none => .error (.invalidLength index (.record L.title L.all.length))

section Text

variable (read : (f : L.Field) → Reader (L.Value f))

/-- What is done with a member of an object in a text. -/
def member (d : L.Draft) (name : String) : Except ReadFault (Reader L.Draft) :=
  match L.field? name with
  | some f =>
    if (d f).isSome then .error (.shape (.duplicateField name))
    else .ok fun input => do
      let (v, rest) ← read f input
      .ok (L.set d f v, rest)
  | none => .ok fun input => do .ok (d, ← skipValue input)

/-- The fields of a list in a text, behind its bracket. -/
def elements (d : L.Draft) (index : Nat) : List L.Field → Input → Except ReadFault (L.Draft × Input)
  | [], input =>
    match skipSpace input with
    | [] => .error .ended
    | s :: rest => if s = some ']' then .ok (d, rest) else .error .malformed
  | f :: fs, input =>
    match nextItem (index = 0) input with
    | .error fault => .error fault
    | .ok (.inr rest) =>
      match L.fillAbsent d index (f :: fs) with
      | .ok d => .ok (d, rest)
      | .error fault => .error (.shape fault)
    | .ok (.inl start) =>
      match read f start with
      | .error fault => .error fault
      | .ok (v, rest) => elements (L.set d f v) (index + 1) fs rest

/-- The draft of a record that begins here; its fields nest one level less deep. -/
def draft (depth : Nat) (read : Nat → (f : L.Field) → Reader (L.Value f)) : Reader L.Draft :=
  fun input => do
    let (g, rest) ← glimpse input
    match g, depth with
    | .sequence, depth + 1 => L.elements (read depth) L.blank 0 L.all (rest.drop 1)
    | .map, depth + 1 => members (L.member (read depth)) (rest.drop 1) true L.blank
    | .sequence, 0 | .map, 0 => .error .malformed
    | g, _ => .error (.shape (.invalidType g (.record L.title)))

/-- A record from text. -/
def record (depth : Nat) (read : Nat → (f : L.Field) → Reader (L.Value f))
    (finish : L.Draft → Except ShapeFault α) : Reader α :=
  fun input => do
    let (d, rest) ← L.draft depth read input
    match finish d with
    | .ok a => .ok (a, rest)
    | .error fault => .error (.shape fault)

end Text

section Value

variable (decode : (f : L.Field) → Json → Except ShapeFault (L.Value f))

/-- The draft of an object's members, taken in their order. -/
def ofMembers (d : L.Draft) : List (String × Json) → Except ShapeFault L.Draft
  | [] => .ok d
  | (name, j) :: rest =>
    match L.field? name with
    | some f =>
      match decode f j with
      | .ok v => ofMembers (L.set d f v) rest
      | .error fault => .error fault
    | none => ofMembers d rest

/-- The draft of a list's elements; `length` is the length of the whole list. -/
def ofItems (d : L.Draft) (index length : Nat) : List L.Field → List Json → Except ShapeFault L.Draft
  | [], [] => .ok d
  | [], _ :: _ => .error (.invalidLength length .fewer)
  | f :: fs, [] => L.fillAbsent d index (f :: fs)
  | f :: fs, j :: js =>
    match decode f j with
    | .ok v => ofItems (L.set d f v) (index + 1) length fs js
    | .error fault => .error fault

end Value

end Layout

/-- What a value shows at first sight. -/
def shown : Json → Glimpse
  | .null => .null
  | .bool b => .bool b
  | .num n => .num n
  | .str s => .str s
  | .arr _ => .sequence
  | .obj _ => .map

namespace Layout

variable (L : Layout)

/-- A record from a value. -/
def decodeRecord (decode : (f : L.Field) → Json → Except ShapeFault (L.Value f))
    (finish : L.Draft → Except ShapeFault α) (j : Json) : Except ShapeFault α :=
  match j with
  | .obj members => do finish (← L.ofMembers decode L.blank members)
  | .arr items => do finish (← L.ofItems decode L.blank 0 items.length L.all items)
  | j => .error (.invalidType (shown j) (.record L.title))

end Layout

/-! The plain kinds of fields, told from a glimpse. -/

def fitString : Glimpse → Except ShapeFault String
  | .str s => .ok s
  | g => .error (.invalidType g .string)

def fitUInt64 : Glimpse → Except ShapeFault UInt64
  | .num (.int n) =>
    if 0 ≤ n then .ok (UInt64.ofNat n.toNat) else .error (.invalidValue (.num (.int n)) .unsigned64)
  | g => .error (.invalidType g .unsigned64)

/-- An integer of 64 bits with a sign. -/
def fitInt64 : Glimpse → Except ShapeFault Int
  | .num (.int n) =>
    if n < twoTo 63 then .ok n else .error (.invalidValue (.num (.int n)) .signed64)
  | g => .error (.invalidType g .signed64)

def fitOctet : Glimpse → Except ShapeFault UInt8
  | .num (.int n) =>
    if 0 ≤ n ∧ n < 256 then .ok (UInt8.ofNat n.toNat)
    else .error (.invalidValue (.num (.int n)) .octet)
  | g => .error (.invalidType g .octet)

def fitBool : Glimpse → Except ShapeFault Bool
  | .bool b => .ok b
  | g => .error (.invalidType g .boolean)

def fitDate : Glimpse → Except ShapeFault Instant
  | .str s =>
    match Instant.ofText s with
    | .ok t => .ok t
    | .error fault => .error (.date fault)
  | g => .error (.invalidType g .date)

end VaultTransfers.Json
