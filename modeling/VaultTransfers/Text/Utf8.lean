/-!
Bytes read as UTF-8. A reader of JSON meets ill-formed bytes where they stand,
so they are kept in place: `symbols` gives one `none` for each byte that is not
part of a well-formed character. `lossy` shows each maximal ill-formed part as
one replacement character instead.
-/

namespace VaultTransfers.Text

/-- A character, or a byte that belongs to none. -/
abbrev Symbol := Option Char

def Symbol.width : Symbol → Nat
  | some c => c.utf8Size
  | none => 1

/-- The UTF-8 form of a text. -/
def utf8 (cs : List Char) : List UInt8 :=
  cs.flatMap String.utf8EncodeChar

/-- The character whose UTF-8 form starts the bytes. -/
def leadingChar? (bytes : List UInt8) : Option Char :=
  (bytes.take 4).toByteArray.utf8DecodeChar? 0

def symbols (bytes : List UInt8) : List Symbol :=
  match bytes with
  | [] => []
  | b :: bs =>
    match leadingChar? (b :: bs) with
    | some c => some c :: symbols (bs.drop (c.utf8Size - 1))
    | none => none :: symbols bs
termination_by bytes.length
decreasing_by all_goals simp only [List.length_drop, List.length_cons]; omega

/-- The text that well-formed bytes encode. -/
def ofUtf8? (bytes : List UInt8) : Option (List Char) :=
  (symbols bytes).mapM id

def isContinuation (b : UInt8) : Bool :=
  0x80 ≤ b && b ≤ 0xBF

/-- The length of the form that a lead byte of two or more bytes opens, and the range of its
second byte. Overlong forms, surrogates and scalars beyond the last are left out. -/
def leadForm? (b : UInt8) : Option (Nat × UInt8 × UInt8) :=
  if 0xC2 ≤ b ∧ b ≤ 0xDF then some (2, 0x80, 0xBF)
  else if b = 0xE0 then some (3, 0xA0, 0xBF)
  else if b = 0xED then some (3, 0x80, 0x9F)
  else if 0xE1 ≤ b ∧ b ≤ 0xEF then some (3, 0x80, 0xBF)
  else if b = 0xF0 then some (4, 0x90, 0xBF)
  else if 0xF1 ≤ b ∧ b ≤ 0xF3 then some (4, 0x80, 0xBF)
  else if b = 0xF4 then some (4, 0x80, 0x8F)
  else none

/-- How many bytes behind an ill-formed lead byte still fit the form that it opens. -/
def fittingBytes (lead : UInt8) : List UInt8 → Nat
  | [] => 0
  | b :: bs =>
    match leadForm? lead with
    | some (length, low, high) =>
      if low ≤ b ∧ b ≤ high then 1 + ((bs.take (length - 3)).takeWhile isContinuation).length else 0
    | none => 0

def lossy (bytes : List UInt8) : List Char :=
  match bytes with
  | [] => []
  | b :: bs =>
    match leadingChar? (b :: bs) with
    | some c => c :: lossy (bs.drop (c.utf8Size - 1))
    | none => '\uFFFD' :: lossy (bs.drop (fittingBytes b bs))
termination_by bytes.length
decreasing_by all_goals simp only [List.length_drop, List.length_cons]; omega

end VaultTransfers.Text
