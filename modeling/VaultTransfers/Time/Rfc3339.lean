import VaultTransfers.Powers
import VaultTransfers.Text.Blank
import VaultTransfers.Time.Instant

/-!
Instants as text. Written form: the date and time of RFC 3339 in UTC with `Z`
and the fewest of 0, 3, 6 or 9 digits of a fraction that are exact; a year
outside 0..9999 has a sign. What is read is more than what is written: fields
may be short, blanks may stand around most parts, and any offset is turned into
UTC.
-/

namespace VaultTransfers

/-- Why a text is not an instant. -/
inductive DateFault where
  | ended
  | invalid
  | outOfRange
  | trailing
  | impossible
deriving DecidableEq, Repr

def DateFault.message : DateFault → String
  | ended => "premature end of input"
  | invalid => "input contains invalid characters"
  | outOfRange => "input is out of range"
  | trailing => "trailing input"
  | impossible => "no possible date and time matching input"

namespace Rfc3339

open Text (trimStart)

/-- Decimal digits filled up with zeros on the left. -/
def padded (width n : Nat) : List Char :=
  let digits := Nat.toDigits 10 n
  List.replicate (width - digits.length) '0' ++ digits

def yearText (y : Int) : List Char :=
  if 0 ≤ y ∧ y ≤ 9999 then padded 4 y.toNat
  else (if y < 0 then '-' else '+') :: padded 4 y.natAbs

/-- The fraction of a second with its point, or nothing when it is zero. -/
def fractionText (nanos : Nat) : List Char :=
  if nanos = 0 then []
  else if nanos % 1000000 = 0 then '.' :: padded 3 (nanos / 1000000)
  else if nanos % 1000 = 0 then '.' :: padded 6 (nanos / 1000)
  else '.' :: padded 9 nanos

def render (t : Instant) : List Char :=
  let date := t.date
  let clock := t.secondOfDay
  let second := clock % 60 + if t.isLeap then 1 else 0
  yearText date.year ++ '-' :: padded 2 date.month ++ '-' :: padded 2 date.day
    ++ 'T' :: padded 2 (clock / 3600) ++ ':' :: padded 2 (clock / 60 % 60)
    ++ ':' :: padded 2 second ++ fractionText (t.nanos % 1000000000) ++ ['Z']

/-- One or more digits, at most `limit` of them where one is given. -/
def digits (limit : Option Nat) (cs : List Char) : Except DateFault (Nat × List Char) :=
  match cs with
  | [] => .error .ended
  | c :: _ =>
    if c.isDigit then
      let run := (limit.elim cs cs.take).takeWhile Char.isDigit
      .ok (Nat.ofDigitChars 10 run 0, cs.drop run.length)
    else .error .invalid

/-- A number of one or two digits behind blanks, within its range. -/
def field (low high : Nat) (cs : List Char) : Except DateFault (Nat × List Char) := do
  let (n, rest) ← digits (some 2) (trimStart cs)
  if low ≤ n ∧ n ≤ high then .ok (n, rest) else .error .outOfRange

def mark (c : Char) (cs : List Char) : Except DateFault (List Char) :=
  match trimStart cs with
  | [] => .error .ended
  | d :: rest => if d = c then .ok rest else .error .invalid

/-- A year of up to four digits, or a sign and any number of digits. -/
def year (cs : List Char) : Except DateFault (Int × List Char) := do
  let (y, rest) ← match trimStart cs with
    | '-' :: cs => do
      let (n, rest) ← digits none cs
      .ok (-(n : Int), rest)
    | '+' :: cs => do
      let (n, rest) ← digits none cs
      .ok ((n : Int), rest)
    | cs => do
      let (n, rest) ← digits (some 4) cs
      .ok ((n : Int), rest)
  if -2147483648 ≤ y ∧ y ≤ 2147483647 then .ok (y, rest) else .error .outOfRange

def date (cs : List Char) : Except DateFault (CivilDate × List Char) := do
  let (y, cs) ← year cs
  let cs ← mark '-' cs
  let (m, cs) ← field 1 12 cs
  let cs ← mark '-' cs
  let (d, cs) ← field 1 31 cs
  .ok (⟨y, m, d⟩, cs)

/-- The letter or blank between a date and a time. -/
def separator : List Char → Except DateFault (List Char)
  | [] => .error .ended
  | c :: cs => if c = 'T' ∨ c = 't' ∨ c = ' ' then .ok cs else .error .invalid

/-- Nanoseconds of an optional fraction; digits behind the ninth are dropped. -/
def fraction : List Char → Except DateFault (Nat × List Char)
  | '.' :: cs => do
    let (n, rest) ← digits (some 9) cs
    .ok (n * tenTo (9 - (cs.length - rest.length)), rest.dropWhile Char.isDigit)
  | cs => .ok (0, cs)

/-- A time of day in seconds, with the nanoseconds; second 60 is a leap second. -/
def time (cs : List Char) : Except DateFault ((Nat × Nat) × List Char) := do
  let (h, cs) ← field 0 23 cs
  let cs ← mark ':' cs
  let (m, cs) ← field 0 59 cs
  let cs ← mark ':' cs
  let (s, cs) ← field 0 60 cs
  let (nanos, cs) ← fraction cs
  let clock := h * 3600 + m * 60 + min s 59
  .ok ((clock, if s = 60 then nanos + 1000000000 else nanos), cs)

/-- Two digits of an offset; a single byte that is left is the end of the text. -/
def offsetPair (cs : List Char) : Except DateFault (Nat × List Char) :=
  match cs with
  | [] => .error .ended
  | [c] => .error (if c.utf8Size = 1 then .ended else .invalid)
  | a :: b :: rest =>
    if a.isDigit ∧ b.isDigit then .ok (Nat.ofDigitChars 10 [a, b] 0, rest) else .error .invalid

def isOffsetGap (c : Char) : Bool :=
  c = ':' || Text.isBlank c

/-- An offset from UTC in minutes. -/
def offset (cs : List Char) : Except DateFault (Int × List Char) :=
  match cs with
  | [] => .error .ended
  | c :: rest =>
    if c = 'Z' ∨ c = 'z' then .ok (0, rest)
    else if (cs.take 3).map Char.toUpper = ['U', 'T', 'C'] then .ok (0, cs.drop 3)
    else if c = '+' ∨ c = '-' ∨ c = '\u2212' then do
      let (h, rest) ← offsetPair rest
      let (m, rest) ← offsetPair (rest.dropWhile isOffsetGap)
      if 60 ≤ m then .error .outOfRange
      else .ok ((if c = '+' then 1 else -1) * (h * 60 + m : Nat), rest)
    else .error .invalid

/-- Joins a local date and time with its offset. -/
def assemble (d : CivilDate) (clock nanos : Nat) (minutes : Int) : Except DateFault Instant :=
  if !d.isValid ∨ d.year < -262143 ∨ 262142 < d.year then .error .outOfRange
  else if minutes ≤ -1440 ∨ 1440 ≤ minutes then .error .outOfRange
  else match Instant.of? (d.toDays * 86400 + clock - minutes * 60) nanos with
    | some t => .ok t
    | none => .error .impossible

def parse (cs : List Char) : Except DateFault Instant := do
  let (d, cs) ← date cs
  let cs ← separator cs
  let ((clock, nanos), cs) ← time cs
  let (minutes, cs) ← offset (trimStart cs)
  if trimStart cs ≠ [] then .error .trailing
  else assemble d clock nanos minutes

end Rfc3339

namespace Instant

def toText (t : Instant) : String :=
  String.ofList (Rfc3339.render t)

def ofText (s : String) : Except DateFault Instant :=
  Rfc3339.parse s.toList

end Instant

end VaultTransfers
