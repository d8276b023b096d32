import VaultTransfers.Json.Printer
import VaultTransfers.Json.Record
import VaultTransfers.Proofs.Codec.Locality

/-!
The words of JSON come back as they were written: characters from their bytes,
strings from their escapes and whole numbers from their digits, with any blanks
around them.
-/

namespace VaultTransfers

namespace Text

theorem leadingChar?_encoded (c : Char) (bytes : List UInt8) :
    leadingChar? (String.utf8EncodeChar c ++ bytes) = some c := by
  have short : (String.utf8EncodeChar c).length ≤ 4 := by
    rw [String.length_utf8EncodeChar]
    exact Char.utf8Size_le_four c
  rw [leadingChar?, List.take_append, List.take_of_length_le short, List.toByteArray_append]
  exact ByteArray.utf8DecodeChar?_utf8EncodeChar_append

theorem symbols_utf8 (cs : List Char) : symbols (utf8 cs) = cs.map some := by
  induction cs with
  | nil => rw [utf8, List.flatMap_nil, symbols, List.map_nil]
  | cons c cs ih =>
      have lead := leadingChar?_encoded c (utf8 cs)
      have length := String.length_utf8EncodeChar c
      have positive := Char.utf8Size_pos c
      cases encoded : String.utf8EncodeChar c with
      | nil =>
          rw [encoded, List.length_nil] at length
          omega
      | cons b bs =>
          rw [encoded] at lead length
          rw [List.length_cons] at length
          have behind : (bs ++ utf8 cs).drop (c.utf8Size - 1) = utf8 cs := by
            rw [← length, Nat.add_sub_cancel, List.drop_left]
          have bytes : utf8 (c :: cs) = b :: (bs ++ utf8 cs) := by
            rw [utf8, List.flatMap_cons, encoded]
            rfl
          rw [bytes, symbols]
          rw [List.cons_append] at lead
          simp only [lead, behind, ih, List.map_cons]

end Text

namespace Json

theorem hexUnit_hexDigits {n : Nat} (small : n < 65536) (input : Input) :
    hexUnit ((Text.hexDigits 4 n).map some ++ input) = .ok (n, input) := by
  have digits : Text.hexDigits 4 n =
      [Text.hexDigit (n / 16 / 16 / 16 % 16), Text.hexDigit (n / 16 / 16 % 16),
        Text.hexDigit (n / 16 % 16), Text.hexDigit (n % 16)] := rfl
  have value (m : Nat) : Text.hexValue? (Text.hexDigit (m % 16)) = some (m % 16) :=
    Text.hexValue_hexDigit (Nat.mod_lt m (by decide))
  rw [digits]
  simp only [List.map_cons, List.map_nil, List.cons_append, List.nil_append, hexUnit, value]
  congr 2
  omega

theorem unitEscape_hexDigits {c : Char} (control : c.toNat < 0x20) (input : Input) :
    unitEscape ((Text.hexDigits 4 c.toNat).map some ++ input) = .ok (c, input) := by
  have unit := hexUnit_hexDigits (n := c.toNat) (by omega) input
  have notLow : isLowSurrogate c.toNat = false := by
    simp only [isLowSurrogate, Bool.and_eq_false_iff, decide_eq_false_iff_not]
    omega
  have notHigh : isHighSurrogate c.toNat = false := by
    simp only [isHighSurrogate, Bool.and_eq_false_iff, decide_eq_false_iff_not]
    omega
  unfold unitEscape
  rw [unit]
  simp only [bind, Except.bind, notLow, notHigh, Bool.false_eq_true, if_false, Char.ofNat_toNat]

/-- The body of a string goes on behind a backslash and the escape of a character. -/
theorem stringBody_of_escapeBody {c : Char} {escaped input : Input} {read : List Char} {sound : Bool}
    (body : escapeBody escaped = .ok (c, input)) (shorter : input.length ≤ escaped.length) :
    stringBody (some '\\' :: escaped) read sound = stringBody input (c :: read) sound := by
  have within : input.length < escaped.length + 1 := by omega
  rw [stringBody]
  simp [body, within]

theorem stringBody_short {c d : Char} (short : shortEscape? d = some c) (input : Input)
    (read : List Char) :
    stringBody (some '\\' :: some d :: input) read true = stringBody input (c :: read) true := by
  have body : escapeBody (some d :: input) = .ok (c, input) := by
    rw [escapeBody, short]
  exact stringBody_of_escapeBody body (by simp)

theorem stringBody_escape (c : Char) (input : Input) (read : List Char) :
    stringBody ((escape c).map some ++ input) read true = stringBody input (c :: read) true := by
  unfold escape
  split
  · subst c
    exact stringBody_short rfl input read
  split
  · subst c
    exact stringBody_short rfl input read
  split
  · subst c
    exact stringBody_short rfl input read
  split
  · subst c
    exact stringBody_short rfl input read
  split
  · subst c
    exact stringBody_short rfl input read
  split
  · subst c
    exact stringBody_short rfl input read
  split
  · subst c
    exact stringBody_short rfl input read
  split
  · rename_i control
    have body : escapeBody (some 'u' :: ((Text.hexDigits 4 c.toNat).map some ++ input)) =
        .ok (c, input) := by
      rw [escapeBody, unitEscape_hexDigits control]
      rfl
    exact stringBody_of_escapeBody body (by simp; omega)
  · rename_i quote backslash _ _ _ _ _ control
    rw [List.map_cons, List.map_nil, List.cons_append, List.nil_append, stringBody]
    simp [quote, backslash, control]

theorem stringBody_flatMap (cs : List Char) (rest : Input) (read : List Char) :
    stringBody ((cs.flatMap escape).map some ++ some '"' :: rest) read true =
      .ok (read.reverse ++ cs, rest) := by
  induction cs generalizing read with
  | nil => simp [stringBody]
  | cons c cs ih =>
      rw [List.flatMap_cons, List.map_append, List.append_assoc, stringBody_escape, ih]
      simp

/-- The symbols of a written text, with what stands behind it. -/
def before (text : List Char) (rest : Input) : Input :=
  text.map some ++ rest

theorem before_append (text more : List Char) (rest : Input) :
    before (text ++ more) rest = before text (before more rest) := by
  simp [before]

theorem before_cons (c : Char) (text : List Char) (rest : Input) :
    before (c :: text) rest = some c :: before text rest := rfl

theorem length_before (text : List Char) (rest : Input) :
    (before text rest).length = text.length + rest.length := by
  rw [before, List.length_append, List.length_map]

/-! Blanks. -/

/-- Nothing but what may stand between the words. -/
def Blanks (cs : List Char) : Prop :=
  ∀ c ∈ cs, isSpace (some c) = true

instance (cs : List Char) : Decidable (Blanks cs) :=
  List.decidableBAll (fun c => isSpace (some c) = true) cs

theorem Blanks.nil : Blanks [] :=
  nofun

/-- A word with blanks around it. -/
def Padded (token text : List Char) : Prop :=
  ∃ pre post, Blanks pre ∧ Blanks post ∧ text = pre ++ (token ++ post)

theorem Padded.self (token : List Char) : Padded token token :=
  ⟨[], [], .nil, .nil, by simp⟩

theorem skipSpace_blanks {gap : List Char} (blanks : Blanks gap) (input : Input) :
    skipSpace (before gap input) = skipSpace input := by
  induction gap with
  | nil => rfl
  | cons c cs ih =>
      have here := blanks c List.mem_cons_self
      rw [before_cons, skipSpace, List.dropWhile_cons, here]
      exact ih fun d member => blanks d (List.mem_cons_of_mem c member)

theorem skipSpace_token {c : Char} (plain : isSpace (some c) = false) (text : List Char)
    (rest : Input) : skipSpace (before (c :: text) rest) = before (c :: text) rest := by
  simp [skipSpace, before_cons, plain]

theorem blanks_of_skipSpace {input : Input} (spaced : skipSpace input = []) :
    ∃ gap, Blanks gap ∧ input = before gap [] := by
  induction input with
  | nil => exact ⟨[], .nil, rfl⟩
  | cons s input ih =>
      rw [skipSpace, List.dropWhile_cons] at spaced
      split at spaced
      · rename_i space
        obtain ⟨gap, blanks, same⟩ := ih spaced
        cases s with
        | none => cases space
        | some c => exact ⟨c :: gap, List.forall_mem_cons.mpr ⟨space, blanks⟩, congrArg (some c :: ·) same⟩
      · cases spaced

/-- What may stand behind a value of a member: the next member or the end of the object. -/
def IsStop (s : Text.Symbol) : Prop :=
  s = some ',' ∨ s = some '\x7d'

theorem IsStop.endsNumber {s : Text.Symbol} (stop : IsStop s) : EndsNumber s := by
  rcases stop with rfl | rfl <;> decide

theorem ends_blanks {gap : List Char} (blanks : Blanks gap) {s : Text.Symbol} (ends : EndsNumber s)
    (rest : Input) : Ends (before gap (s :: rest)) := by
  cases gap with
  | nil => exact .cons ends rest
  | cons c cs =>
      refine .cons ?_ (before cs (s :: rest))
      have space := blanks c List.mem_cons_self
      simp only [isSpace, Bool.or_eq_true, decide_eq_true_eq] at space
      rcases space with ((rfl | rfl) | rfl) | rfl <;> decide

theorem glimpse_blanks {gap : List Char} (blanks : Blanks gap) (input : Input) :
    glimpse (before gap input) = glimpse input := by
  rw [glimpse, glimpse, skipSpace_blanks blanks]

/-! Strings. -/

/-- The text is a string of these characters with blanks around it; any of them may be written as an
escape. -/
def Spells (s : String) (text : List Char) : Prop :=
  ∃ body, Padded ('"' :: body) text ∧ stringBody (body.map some) [] true = .ok (s.toList, [])

theorem spells_renderString (s : String) : Spells s (renderString s) := by
  refine ⟨s.toList.flatMap escape ++ ['"'], .self _, ?_⟩
  rw [List.map_append]
  exact stringBody_flatMap s.toList [] []

/-- Where a string begins, and what is left behind it. -/
theorem Spells.body {s : String} {text : List Char} (spells : Spells s text) :
    ∃ gap, Blanks gap ∧ gap.length ≤ text.length ∧ ∀ t rest, EndsNumber t →
      ∃ behind, skipSpace (before text (t :: rest)) = some '"' :: behind ∧
        stringBody behind [] true = .ok (s.toList, before gap (t :: rest)) := by
  obtain ⟨body, ⟨pre, post, front, back, rfl⟩, read⟩ := spells
  refine ⟨post, back, by simp; omega, fun t rest ends => ?_⟩
  have read := stringBody_local [] true read (before post (t :: rest)) (ends_blanks back ends rest)
  refine ⟨_, ?_, read⟩
  rw [before_append, skipSpace_blanks front, before_append, skipSpace_token rfl]
  rfl

theorem Spells.glimpse {s : String} {text : List Char} (spells : Spells s text) :
    ∃ gap, Blanks gap ∧ gap.length ≤ text.length ∧ ∀ t rest, EndsNumber t →
      Json.glimpse (before text (t :: rest)) = .ok (.str s, before gap (t :: rest)) := by
  obtain ⟨gap, blanks, short, body⟩ := spells.body
  refine ⟨gap, blanks, short, fun t rest ends => ?_⟩
  obtain ⟨behind, spaced, read⟩ := body t rest ends
  have shows_ := glimpse_of_shows spaced (.string read)
  rwa [String.ofList_toList] at shows_

theorem leaf_of_glimpse {α : Type} {fit : Glimpse → Except ShapeFault α} {g : Glimpse} {a : α}
    {input rest : Input} (seen : glimpse input = .ok (g, rest)) (fits : fit g = .ok a) :
    leaf fit input = .ok (a, rest) := by
  simp [leaf, seen, fits, bind, Except.bind]

/-! Whole numbers. -/

def digitValue (c : Char) : Nat :=
  c.toNat - '0'.toNat

theorem digit?_of_isDigit {c : Char} (digit : c.isDigit = true) :
    digit? (some c) = some (digitValue c) := by
  simp [digit?, digit, digitValue]

theorem digitRun_digits {ds : List Char} (digits : ∀ c ∈ ds, c.isDigit = true) :
    digitRun (ds.map some) = (ds.map digitValue, []) := by
  induction ds with
  | nil => rfl
  | cons c cs ih =>
      have here := digit?_of_isDigit (digits c List.mem_cons_self)
      have behind := ih fun d member => digits d (List.mem_cons_of_mem c member)
      rw [List.map_cons, digitRun]
      simp [here, behind]

theorem toDigits_cons_of_pos {n : Nat} (positive : 0 < n) :
    ∃ c cs, Nat.toDigits 10 n = c :: cs ∧ digitValue c ≠ 0 := by
  induction n using Nat.strongRecOn with
  | ind n ih =>
      by_cases small : n < 10
      · refine ⟨n.digitChar, [], Nat.toDigits_of_lt_base small, ?_⟩
        have value := Nat.toNat_digitChar_sub_48_of_lt_ten small
        intro zero
        exact absurd (value.symm.trans zero) (by omega)
      · obtain ⟨c, cs, digits, nonzero⟩ := ih (n / 10) (by omega) (by omega)
        refine ⟨c, cs ++ [(n % 10).digitChar], ?_, nonzero⟩
        rw [Nat.toDigits_of_base_le (by decide) (by omega), digits, List.cons_append]

theorem isDigit_of_mem_toDigits {n : Nat} {c : Char} (member : c ∈ Nat.toDigits 10 n) :
    c.isDigit = true :=
  Nat.isDigit_of_mem_toDigits (by decide) (by decide) member

theorem wholePart_toDigits (n : Nat) (fault : ReadFault) :
    wholePart fault ((Nat.toDigits 10 n).map some) = .ok ((Nat.toDigits 10 n).map digitValue, []) := by
  by_cases zero : n = 0
  · subst zero
    rfl
  · obtain ⟨c, cs, digits, nonzero⟩ := toDigits_cons_of_pos (Nat.pos_of_ne_zero zero)
    have all : ∀ d ∈ c :: cs, d.isDigit = true :=
      fun d member => isDigit_of_mem_toDigits (digits ▸ member)
    have here := digit?_of_isDigit (all c List.mem_cons_self)
    have behind := digitRun_digits fun d member => all d (List.mem_cons_of_mem c member)
    rw [digits, List.map_cons]
    unfold wholePart
    simp only [here, behind, List.map_cons]

theorem le_ofDigitChars (ds : List Char) (n : Nat) : n ≤ Nat.ofDigitChars 10 ds n := by
  rw [Nat.ofDigitChars_eq_ofDigitChars_zero]
  have scaled : 1 * n ≤ 10 ^ ds.length * n := Nat.mul_le_mul_right n (Nat.one_le_pow _ 10 (by decide))
  omega

/-- Digits of a number of 64 bits are all taken in. -/
theorem takeSignificand_of_lt (ds : List Char) (n : Nat)
    (fits : Nat.ofDigitChars 10 ds n < twoTo 64) :
    takeSignificand n (ds.map digitValue) = (Nat.ofDigitChars 10 ds n, 0) := by
  induction ds generalizing n with
  | nil => simp [takeSignificand]
  | cons c cs ih =>
      rw [Nat.ofDigitChars_cons] at fits ⊢
      have next : 10 * n + digitValue c < twoTo 64 :=
        Nat.lt_of_le_of_lt (le_ofDigitChars cs _) fits
      rw [List.map_cons, takeSignificand, if_pos next]
      exact ih _ fits

theorem numeral_toDigits (n : Nat) (fault : ReadFault) :
    numeral fault ((Nat.toDigits 10 n).map some) =
      .ok (⟨(Nat.toDigits 10 n).map digitValue, none, none⟩, []) := by
  unfold numeral
  rw [wholePart_toDigits]
  rfl

theorem number_toDigits {n : Nat} (fits : n < twoTo 64) :
    number false ((Nat.toDigits 10 n).map some) = .ok (.int n, []) := by
  have value : numberValue? false ⟨(Nat.toDigits 10 n).map digitValue, none, none⟩ =
      some (.int n) := by
    have taken := takeSignificand_of_lt (Nat.toDigits 10 n) 0 (by simpa using fits)
    rw [Nat.ofDigitChars_ten_toDigits] at taken
    simp [numberValue?, taken]
  rw [number, numeral_toDigits]
  simp only [bind, Except.bind, value]

theorem isSpace_of_isDigit {c : Char} (digit : c.isDigit = true) : isSpace (some c) = false := by
  cases space : isSpace (some c) with
  | false => rfl
  | true =>
      simp only [isSpace, Bool.or_eq_true, decide_eq_true_eq] at space
      rcases space with ((rfl | rfl) | rfl) | rfl <;> simp at digit

theorem glimpse_toDigits {n : Nat} (fits : n < twoTo 64) {tail : Input} (ends : Ends tail) :
    glimpse (before (Nat.toDigits 10 n) tail) = .ok (.num (.int n), tail) := by
  have read := number_local false (number_toDigits fits) tail ends
  cases digits : Nat.toDigits 10 n with
  | nil => exact absurd digits Nat.toDigits_ne_nil
  | cons c cs =>
      have digit : c.isDigit = true := isDigit_of_mem_toDigits (digits ▸ List.mem_cons_self)
      rw [digits] at read
      exact glimpse_of_shows (skipSpace_token (isSpace_of_isDigit digit) cs tail) (.unsigned digit read)

end Json

end VaultTransfers
