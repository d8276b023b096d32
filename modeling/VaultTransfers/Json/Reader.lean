import VaultTransfers.Json.Lexeme

/-!
JSON values read from text. A list or an object costs one level of nesting, and
the levels are counted down; a text that uses them up is refused. Of members
with one name the last one stays.
-/

namespace VaultTransfers.Json

/-- The levels of nesting that a text may have. -/
def nestingLimit : Nat := 127

/-- Reads a value without members, or tells which of the two kinds with members begins here. -/
def glimpse (input : Input) : Except ReadFault (Glimpse × Input) :=
  match skipSpace input with
  | [] => .error .ended
  | none :: _ => .error .malformed
  | some c :: rest =>
    if c = '"' then do
      let (cs, rest) ← stringBody rest [] true
      .ok (.str (String.ofList cs), rest)
    else if c = '[' then .ok (.sequence, some c :: rest)
    else if c = '\x7b' then .ok (.map, some c :: rest)
    else if c.isDigit then do
      let (n, rest) ← number false (some c :: rest)
      .ok (.num n, rest)
    else if c = '-' then do
      let (n, rest) ← number true rest
      .ok (.num n, rest)
    else if c = 'n' then do .ok (.null, ← word ['u', 'l', 'l'] rest)
    else if c = 't' then do .ok (.bool true, ← word ['r', 'u', 'e'] rest)
    else if c = 'f' then do .ok (.bool false, ← word ['a', 'l', 's', 'e'] rest)
    else .error .malformed

/-- Where the next element of a list begins, or the rest behind the list. -/
def nextItem (first : Bool) (input : Input) : Except ReadFault (Input ⊕ Input) :=
  match skipSpace input with
  | [] => .error .ended
  | s :: rest =>
    if s = some ']' then .ok (.inr rest)
    else if first then .ok (.inl (s :: rest))
    else if s = some ',' then
      match skipSpace rest with
      | [] => .error .ended
      | t :: rest => if t = some ']' then .error .malformed else .ok (.inl (t :: rest))
    else .error .malformed

/-- The elements of a list behind its bracket. -/
def items (item : Reader α) (input : Input) (first : Bool) (read : List α) :
    Except ReadFault (List α × Input) :=
  match nextItem first input with
  | .error fault => .error fault
  | .ok (.inr rest) => .ok (read.reverse, rest)
  | .ok (.inl start) =>
    match item start with
    | .error fault => .error fault
    | .ok (value, rest) =>
      if rest.length < input.length then items item rest false (value :: read)
      else .error .malformed
termination_by input.length

/-- Where the next member of an object begins, or the rest behind the object. -/
def nextMember (first : Bool) (input : Input) : Except ReadFault (Input ⊕ Input) :=
  match skipSpace input with
  | [] => .error .ended
  | s :: rest =>
    if s = some '\x7d' then .ok (.inr rest)
    else if first then .ok (.inl (s :: rest))
    else if s = some ',' then .ok (.inl (skipSpace rest))
    else .error .malformed

/-- The name of a member, which has to be a string. -/
def memberName : Input → Except ReadFault (String × Input)
  | [] => .error .ended
  | s :: rest =>
    if s = some '"' then do
      let (cs, rest) ← stringBody rest [] true
      .ok (String.ofList cs, rest)
    else .error .malformed

/-- The name of the next member of an object with the input behind it, or the rest behind the
object. -/
def nextName (first : Bool) (input : Input) : Except ReadFault ((String × Input) ⊕ Input) :=
  match nextMember first input with
  | .error fault => .error fault
  | .ok (.inr rest) => .ok (.inr rest)
  | .ok (.inl start) => (memberName start).map .inl

/-- The colon behind a name. -/
def colon (input : Input) : Except ReadFault Input :=
  word [':'] (skipSpace input)

/-- The members of an object behind its brace. `member` looks at a name and tells how its value
goes into what is gathered, or refuses the name before the value is looked at. -/
def members (member : σ → String → Except ReadFault (Reader σ)) (input : Input) (first : Bool)
    (state : σ) : Except ReadFault (σ × Input) :=
  match nextName first input with
  | .error fault => .error fault
  | .ok (.inr rest) => .ok (state, rest)
  | .ok (.inl (name, rest)) =>
    match member state name with
    | .error fault => .error fault
    | .ok reader =>
      match colon rest with
      | .error fault => .error fault
      | .ok start =>
        match reader start with
        | .error fault => .error fault
        | .ok (state, rest) =>
          if rest.length < input.length then members member rest false state
          else .error .malformed
termination_by input.length

/-- Reads a value whose lists and objects nest at most `depth` deep. -/
def value : (depth : Nat) → Reader Json
  | depth, input => do
    let (g, rest) ← glimpse input
    match g with
    | .null => .ok (.null, rest)
    | .bool b => .ok (.bool b, rest)
    | .num n => .ok (.num n, rest)
    | .str s => .ok (.str s, rest)
    | .sequence =>
      match depth with
      | 0 => .error .malformed
      | depth + 1 => do
        let (list, rest) ← items (value depth) (rest.drop 1) true []
        .ok (.arr list, rest)
    | .map =>
      match depth with
      | 0 => .error .malformed
      | depth + 1 => do
        let member (gathered : List (String × Json)) (name : String) :
            Except ReadFault (Reader (List (String × Json))) :=
          .ok fun input => do
            let (v, rest) ← value depth input
            .ok (insertMember name v gathered, rest)
        let (gathered, rest) ← members member (rest.drop 1) true []
        .ok (.obj gathered, rest)

/-- Reads a value that shows by its glimpse whether it fits. -/
def leaf (fit : Glimpse → Except ShapeFault α) : Reader α := fun input => do
  let (g, rest) ← glimpse input
  match fit g with
  | .ok a => .ok (a, rest)
  | .error fault => .error (.shape fault)

/-- Reads a value that may be null. -/
def optional (reader : Reader α) : Reader (Option α) := fun input =>
  match skipSpace input with
  | some 'n' :: rest => do .ok (none, ← word ['u', 'l', 'l'] rest)
  | start => do
    let (a, rest) ← reader start
    .ok (some a, rest)

/-- Reads the whole of a text, with nothing but blanks behind the value. -/
def whole (reader : Reader α) (input : Input) : Except ReadFault α := do
  let (a, rest) ← reader input
  if skipSpace rest = [] then .ok a else .error .malformed

/-- A JSON text in UTF-8. -/
def parse (bytes : List UInt8) : Except ReadFault Json :=
  whole (value nestingLimit) (Text.symbols bytes)

end VaultTransfers.Json
