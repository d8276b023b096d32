import VaultTransfers.Json.Fault
import VaultTransfers.Powers
import VaultTransfers.Text.Utf8

/-!
The words of JSON: blanks, literals, strings and numbers. A reader takes its
word from the front of the input and returns the rest; its fault is the first
one that a reader from left to right meets.
-/

namespace VaultTransfers.Json

abbrev Input := List Text.Symbol

/-- Takes a value from the front of an input. -/
abbrev Reader (α : Type) := Input → Except ReadFault (α × Input)

def isSpace : Text.Symbol → Bool
  | some c => c = ' ' || c = '\n' || c = '\t' || c = '\r'
  | none => false

def skipSpace (input : Input) : Input :=
  input.dropWhile isSpace

/-- The given characters, one by one. -/
def word : List Char → Input → Except ReadFault Input
  | [], input => .ok input
  | _ :: _, [] => .error .ended
  | c :: cs, s :: input => if s = some c then word cs input else .error .malformed

def digit? : Text.Symbol → Option Nat
  | some c => if c.isDigit then some (c.toNat - '0'.toNat) else none
  | none => none

/-- Takes the digits at the front. -/
def digitRun : Input → List Nat × Input
  | [] => ([], [])
  | s :: input =>
    match digit? s with
    | some d => let (ds, rest) := digitRun input; (d :: ds, rest)
    | none => ([], s :: input)

/-- The four hexadecimal digits of an escape. Fewer than four bytes are the end of the text,
whatever they are. -/
def hexUnit (input : Input) : Except ReadFault (Nat × Input) :=
  match input with
  | some a :: some b :: some c :: some d :: rest =>
    match Text.hexValue? a, Text.hexValue? b, Text.hexValue? c, Text.hexValue? d with
    | some a, some b, some c, some d => .ok (((a * 16 + b) * 16 + c) * 16 + d, rest)
    | _, _, _, _ => .error .malformed
  | _ => if (input.take 4).foldl (fun n s => n + s.width) 0 < 4 then .error .ended else .error .malformed

def isHighSurrogate (n : Nat) : Bool :=
  0xD800 ≤ n && n ≤ 0xDBFF

def isLowSurrogate (n : Nat) : Bool :=
  0xDC00 ≤ n && n ≤ 0xDFFF

/-- The escape of a scalar by one unit of 16 bits, or by two that make a pair. -/
def unitEscape (input : Input) : Except ReadFault (Char × Input) := do
  let (n, input) ← hexUnit input
  if isLowSurrogate n then .error .malformed
  else if isHighSurrogate n then
    let input ← word ['\\', 'u'] input
    let (m, input) ← hexUnit input
    if isLowSurrogate m then .ok (Char.ofNat ((n - 0xD800) * 0x400 + (m - 0xDC00) + 0x10000), input)
    else .error .malformed
  else .ok (Char.ofNat n, input)

/-- The character behind a backslash that stands for a character by itself. -/
def shortEscape? : Char → Option Char
  | '"' => some '"'
  | '\\' => some '\\'
  | '/' => some '/'
  | 'b' => some '\x08'
  | 'f' => some '\x0c'
  | 'n' => some '\n'
  | 'r' => some '\r'
  | 't' => some '\t'
  | _ => none

def escapeBody : Input → Except ReadFault (Char × Input)
  | [] => .error .ended
  | none :: _ => .error .malformed
  | some c :: input =>
    match shortEscape? c with
    | some d => .ok (d, input)
    | none => if c = 'u' then unitEscape input else .error .malformed

/-- The rest of a string behind its opening quote. A byte that is no character is found out at
the closing quote. -/
def stringBody (input : Input) (read : List Char) (sound : Bool) :
    Except ReadFault (List Char × Input) :=
  match input with
  | [] => .error .ended
  | none :: rest => stringBody rest read false
  | some c :: rest =>
    if c = '"' then
      if sound then .ok (read.reverse, rest) else .error .malformed
    else if c = '\\' then
      match escapeBody rest with
      | .error fault => .error fault
      | .ok (d, rest') =>
        if rest'.length < rest.length + 1 then stringBody rest' (d :: read) sound
        else .error .malformed
    else if c.toNat < 0x20 then .error .malformed
    else stringBody rest (c :: read) sound
termination_by input.length

/-- Passes over the rest of a string; escapes have to be complete, but need not make sense. -/
def skipString (input : Input) : Except ReadFault Input :=
  match input with
  | [] => .error .ended
  | none :: rest => skipString rest
  | some c :: rest =>
    if c = '"' then .ok rest
    else if c = '\\' then
      match rest with
      | [] => .error .ended
      | none :: _ => .error .malformed
      | some d :: rest =>
        if (shortEscape? d).isSome then skipString rest
        else if d = 'u' then
          match hexUnit rest with
          | .error fault => .error fault
          | .ok (_, rest') =>
            if rest'.length < rest.length + 2 then skipString rest' else .error .malformed
        else .error .malformed
    else if c.toNat < 0x20 then .error .malformed
    else skipString rest
termination_by input.length

/-- The parts of a written number. -/
structure Numeral where
  whole : List Nat
  fraction : Option (List Nat)
  exponent : Option (Bool × List Nat)
deriving DecidableEq, Repr

/-- The digits before the point: no zero in front of another digit. -/
def wholePart (atEnd : ReadFault) : Input → Except ReadFault (List Nat × Input)
  | [] => .error atEnd
  | s :: input =>
    match digit? s with
    | none => .error .malformed
    | some 0 =>
      match input with
      | [] => .ok ([0], [])
      | t :: rest => if (digit? t).isSome then .error .malformed else .ok ([0], t :: rest)
    | some d => let (ds, rest) := digitRun input; .ok (d :: ds, rest)

/-- One or more digits. -/
def digitsPart (atEnd : ReadFault) (input : Input) : Except ReadFault (List Nat × Input) :=
  match digitRun input with
  | ([], []) => .error atEnd
  | ([], _) => .error .malformed
  | result => .ok result

def fractionPart (atEnd : ReadFault) : Input → Except ReadFault (Option (List Nat) × Input)
  | some '.' :: input => do
    let (ds, rest) ← digitsPart atEnd input
    .ok (some ds, rest)
  | input => .ok (none, input)

/-- The sign of an exponent: whether it is positive. -/
def exponentSign : Input → Bool × Input
  | some '+' :: input => (true, input)
  | some '-' :: input => (false, input)
  | input => (true, input)

def exponentPart (atEnd : ReadFault) : Input → Except ReadFault (Option (Bool × List Nat) × Input)
  | [] => .ok (none, [])
  | s :: input =>
    if s = some 'e' ∨ s = some 'E' then do
      let (positive, rest) := exponentSign input
      let (ds, rest) ← digitsPart atEnd rest
      .ok (some (positive, ds), rest)
    else .ok (none, s :: input)

/-- A number without its sign; `atEnd` is the fault of a text that ends inside it. -/
def numeral (atEnd : ReadFault) (input : Input) : Except ReadFault (Numeral × Input) := do
  let (whole, input) ← wholePart atEnd input
  let (fraction, input) ← fractionPart atEnd input
  let (exponent, input) ← exponentPart atEnd input
  .ok (⟨whole, fraction, exponent⟩, input)

/-- The digits that a significand of 64 bits takes in, and how many are left over behind them. -/
def takeSignificand : (read : Nat) → List Nat → Nat × Nat
  | n, [] => (n, 0)
  | n, d :: ds => if 10 * n + d < twoTo 64 then takeSignificand (10 * n + d) ds else (n, ds.length + 1)

/-- An exponent of 32 bits, if the digits fit. -/
def exponentValue? : (read : Nat) → List Nat → Option Nat
  | n, [] => some n
  | n, d :: ds => if 10 * n + d < twoTo 31 then exponentValue? (10 * n + d) ds else none

/-- `x * 10 ^ e` in steps of at most `10 ^ 308`, each of them rounded. -/
def scaleByPower (x : Binary64) (e : Int) : Option Binary64 :=
  if x.isZero then some x
  else if 308 < e then none
  else if 0 ≤ e then do x.scaleUp? (← Binary64.nearest? false (tenTo e.toNat) 1)
  else if -308 ≤ e then do x.scaleDown? (← Binary64.nearest? false (tenTo (-e).toNat) 1)
  else do
    let y ← x.scaleDown? (← Binary64.nearest? false (tenTo 308) 1)
    scaleByPower y (e + 308)
termination_by (-e).toNat

/-- The value of a number that is written with a fraction or an exponent, or has too many digits.
It is rounded more than once; nothing is said of a number that would be infinite. -/
def floatValue? (negative : Bool) (n : Numeral) : Option Binary64 := do
  let (whole, surplus) := takeSignificand 0 n.whole
  let fraction := n.fraction.getD []
  let (significand, left) := takeSignificand whole fraction
  let start : Int := (surplus : Int) - (fraction.length - left : Nat)
  let x ← Binary64.nearest? negative significand 1
  match n.exponent with
  | none => scaleByPower x start
  | some (positive, ds) =>
    match exponentValue? 0 ds with
    | some e => scaleByPower x (if positive then start + e else start - e)
    | none => if positive && significand ≠ 0 then none else some ⟨negative, 0, Binary64.leastExponent⟩

/-- The value of a number: an integer where one of 64 bits is written, otherwise binary64. -/
def numberValue? (negative : Bool) (n : Numeral) : Option JsonNumber :=
  let (whole, surplus) := takeSignificand 0 n.whole
  if n.fraction = none ∧ n.exponent = none ∧ surplus = 0 ∧ ¬ negative then some (.int whole)
  else if n.fraction = none ∧ n.exponent = none ∧ surplus = 0 ∧ 1 ≤ whole ∧ whole ≤ twoTo 63 then
    some (.int (-(whole : Int)))
  else (floatValue? negative n).map .float

/-- A number behind its sign. -/
def number (negative : Bool) (input : Input) : Except ReadFault (JsonNumber × Input) := do
  let (n, rest) ← numeral .ended input
  match numberValue? negative n with
  | some value => .ok (value, rest)
  | none => .error .malformed

end VaultTransfers.Json
