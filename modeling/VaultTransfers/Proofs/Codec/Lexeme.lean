import VaultTransfers.Json.Skip

/-!
The words of JSON as their readers take them. A reader that has taken its word
has looked at no more than the symbol behind it, and at that only to see whether
a number goes on; what is taken from a whole input is taken as well from the
front of a longer one. A string is passed over where it can be read.
-/

namespace VaultTransfers.Json

variable {α β : Type}

/-- The symbol does not go on with a number. -/
def EndsNumber (s : Text.Symbol) : Prop :=
  digit? s = none ∧ s ≠ some '.' ∧ s ≠ some 'e' ∧ s ≠ some 'E'

instance (s : Text.Symbol) : Decidable (EndsNumber s) :=
  inferInstanceAs (Decidable (_ ∧ _))

/-- What stands behind does not go on with a number. -/
def Ends (tail : Input) : Prop :=
  ∀ s ∈ tail.head?, EndsNumber s

theorem Ends.nil : Ends [] :=
  nofun

theorem Ends.cons {s : Text.Symbol} (ends : EndsNumber s) (rest : Input) : Ends (s :: rest) := by
  intro t first
  cases first
  exact ends

theorem Ends.head {s : Text.Symbol} {rest : Input} (ends : Ends (s :: rest)) : EndsNumber s :=
  ends s rfl

/-- What the one reader takes from an input, the other takes from the front of a longer one. -/
def Carries (reader reader' : Reader α) : Prop :=
  ∀ {input : Input} {a : α} {rest : Input}, reader input = .ok (a, rest) →
    ∀ tail, Ends tail → reader' (input ++ tail) = .ok (a, rest ++ tail)

/-- The reader does not look at what stands behind the value that it takes. -/
def Local (reader : Reader α) : Prop :=
  Carries reader reader

theorem bind_eq_ok {ε : Type} {x : Except ε α} {next : α → Except ε β} {b : β}
    (done : x >>= next = .ok b) : ∃ a, x = .ok a ∧ next a = .ok b := by
  cases x with
  | error fault => cases done
  | ok a => exact ⟨a, rfl, done⟩

theorem skipSpace_append {input rest : Input} {s : Text.Symbol} (spaced : skipSpace input = s :: rest)
    (tail : Input) : skipSpace (input ++ tail) = s :: (rest ++ tail) := by
  rw [skipSpace] at spaced ⊢
  rw [List.dropWhile_append, spaced]
  rfl

theorem word_eq_ok_iff {cs : List Char} {input rest : Input} :
    word cs input = .ok rest ↔ input = cs.map some ++ rest := by
  induction cs generalizing input with
  | nil => exact ⟨fun read => Except.ok.inj read, fun same => congrArg Except.ok same⟩
  | cons c cs ih =>
      cases input with
      | nil => exact ⟨nofun, nofun⟩
      | cons s input =>
          rw [word, List.map_cons, List.cons_append, List.cons.injEq, ← ih]
          split
          · rename_i same
            exact ⟨fun read => ⟨same, read⟩, fun both => both.2⟩
          · rename_i other
            exact ⟨nofun, fun both => absurd both.1 other⟩

theorem word_append {cs : List Char} {input rest : Input} (read : word cs input = .ok rest)
    (tail : Input) : word cs (input ++ tail) = .ok (rest ++ tail) := by
  rw [word_eq_ok_iff] at read ⊢
  rw [read, List.append_assoc]

theorem colon_append {input rest : Input} (read : colon input = .ok rest) (tail : Input) :
    colon (input ++ tail) = .ok (rest ++ tail) := by
  cases spaced : skipSpace input with
  | nil =>
      rw [colon, spaced] at read
      cases read
  | cons s behind =>
      rw [colon, spaced] at read
      rw [colon, skipSpace_append spaced]
      exact word_append read tail

/-!
Numbers. The fault of a text that ends inside a number is of no matter to a text that does not.
-/

theorem digitRun_append (input : Input) {tail : Input} (ends : Ends tail) :
    digitRun (input ++ tail) = ((digitRun input).1, (digitRun input).2 ++ tail) := by
  induction input with
  | nil =>
      cases tail with
      | nil => rfl
      | cons s rest =>
          rw [List.nil_append, digitRun]
          simp [ends.head.1, digitRun]
  | cons s input ih =>
      rw [List.cons_append, digitRun, digitRun]
      cases digit? s with
      | none => rfl
      | some d => simp [ih]

theorem wholePart_carries (fault fault' : ReadFault) :
    Carries (wholePart fault) (wholePart fault') := by
  intro input ds rest read tail ends
  cases input with
  | nil => cases read
  | cons s input =>
      rw [wholePart.eq_def] at read
      rw [List.cons_append, wholePart.eq_def]
      simp only at read ⊢
      split at read
      · cases read
      · cases input with
        | nil =>
            cases read
            cases tail with
            | nil => rfl
            | cons t behind => simp [ends.head.1]
        | cons t input =>
            simp only [List.cons_append] at read ⊢
            split at read
            · cases read
            · rename_i notDigit
              cases read
              rw [if_neg notDigit]
              rfl
      · cases read
        simp only [digitRun_append input ends]

theorem digitsPart_carries (fault fault' : ReadFault) :
    Carries (digitsPart fault) (digitsPart fault') := by
  intro input ds rest read tail ends
  rw [digitsPart.eq_def] at read
  rw [digitsPart.eq_def, digitRun_append input ends]
  rcases run : digitRun input with ⟨digits, behind⟩
  rw [run] at read
  cases digits with
  | nil => cases behind <;> cases read
  | cons d digits =>
      cases read
      rfl

theorem fractionPart_carries (fault fault' : ReadFault) :
    Carries (fractionPart fault) (fractionPart fault') := by
  intro input part rest read tail ends
  rw [fractionPart.eq_def] at read
  split at read
  · rename_i input
    obtain ⟨⟨ds, behind⟩, digits, done⟩ := bind_eq_ok read
    cases done
    rw [List.cons_append, fractionPart, digitsPart_carries fault fault' digits tail ends]
    rfl
  · rename_i noPoint
    cases read
    have noPoint (more : Input) (point : input ++ tail = some '.' :: more) : False := by
      cases input with
      | nil =>
          obtain rfl : tail = some '.' :: more := point
          exact ends.head.2.1 rfl
      | cons s input =>
          obtain ⟨rfl, -⟩ := List.cons.inj point
          exact noPoint input rfl
    rw [fractionPart.eq_def]
    split
    · rename_i more point
      exact (noPoint more point).elim
    · rfl

theorem exponentSign_append {input : Input} (some_ : input ≠ []) (tail : Input) :
    exponentSign (input ++ tail) = ((exponentSign input).1, (exponentSign input).2 ++ tail) := by
  cases input with
  | nil => exact absurd rfl some_
  | cons s input =>
      rw [List.cons_append, exponentSign.eq_def, exponentSign.eq_def]
      split <;> simp_all

theorem exponentPart_carries (fault fault' : ReadFault) :
    Carries (exponentPart fault) (exponentPart fault') := by
  intro input part rest read tail ends
  cases input with
  | nil =>
      cases read
      cases tail with
      | nil => rfl
      | cons s tail =>
          obtain ⟨-, -, lower, upper⟩ := ends.head
          rw [List.nil_append, exponentPart, if_neg (not_or.mpr ⟨lower, upper⟩)]
  | cons s input =>
      rw [exponentPart] at read
      rw [List.cons_append, exponentPart]
      split at read
      · rename_i mark
        have some_ : input ≠ [] := by
          rintro rfl
          cases read
        rcases signed : exponentSign input with ⟨positive, unsigned⟩
        rw [signed] at read
        obtain ⟨⟨ds, behind⟩, digits, done⟩ := bind_eq_ok read
        cases done
        have digits := digitsPart_carries fault fault' digits tail ends
        rw [if_pos mark, exponentSign_append some_, signed]
        simp only [digits, bind, Except.bind]
      · rename_i noMark
        cases read
        rw [if_neg noMark]
        rfl

theorem numeral_carries (fault fault' : ReadFault) :
    Carries (numeral fault) (numeral fault') := by
  intro input n rest read tail ends
  obtain ⟨⟨whole, input₁⟩, readWhole, read⟩ := bind_eq_ok read
  obtain ⟨⟨fraction, input₂⟩, readFraction, read⟩ := bind_eq_ok read
  obtain ⟨⟨exponent, input₃⟩, readExponent, read⟩ := bind_eq_ok read
  cases read
  have readWhole := wholePart_carries fault fault' readWhole tail ends
  have readFraction := fractionPart_carries fault fault' readFraction tail ends
  have readExponent := exponentPart_carries fault fault' readExponent tail ends
  simp only [numeral, readWhole, readFraction, readExponent, bind, Except.bind]

theorem number_local (negative : Bool) : Local (number negative) := by
  intro input n rest read tail ends
  obtain ⟨⟨n, behind⟩, readNumeral, read⟩ := bind_eq_ok read
  have readNumeral := numeral_carries .ended .ended readNumeral tail ends
  simp only [number, readNumeral, bind, Except.bind]
  simp only at read
  split at read
  · cases read
    rfl
  · cases read

/-! Strings. -/

theorem hexUnit_local : Local hexUnit := by
  intro input n rest read tail _
  rw [hexUnit.eq_def] at read
  split at read
  · simp only [List.cons_append, hexUnit]
    split at read
    · cases read
      simp only [*]
    · cases read
  · split at read <;> cases read

theorem unitEscape_local : Local unitEscape := by
  intro input c rest read tail ends
  obtain ⟨⟨n, input₁⟩, unit, read⟩ := bind_eq_ok read
  have unit := hexUnit_local unit tail ends
  simp only [unitEscape, unit, bind, Except.bind]
  simp only at read
  split at read
  · cases read
  · rename_i notLow
    rw [if_neg notLow]
    split at read
    · rename_i high
      obtain ⟨input₂, mark, read⟩ := bind_eq_ok read
      obtain ⟨⟨m, input₃⟩, second, read⟩ := bind_eq_ok read
      have mark := word_append mark tail
      have second := hexUnit_local second tail ends
      simp only [high, if_true, mark, second]
      simp only at read
      split at read
      · rename_i low
        obtain ⟨rfl, rfl⟩ := Prod.mk.inj (Except.ok.inj read)
        rw [if_pos low]
      · cases read
    · rename_i notHigh
      cases read
      rw [if_neg notHigh]

theorem escapeBody_local : Local escapeBody := by
  intro input c rest read tail ends
  cases input with
  | nil => cases read
  | cons s input =>
      cases s with
      | none => cases read
      | some d =>
          rw [escapeBody] at read
          rw [List.cons_append, escapeBody]
          cases short : shortEscape? d with
          | some escaped =>
              rw [short] at read
              cases read
              rfl
          | none =>
              rw [short] at read
              simp only at read ⊢
              split at read
              · rename_i unit
                rw [if_pos unit]
                exact unitEscape_local read tail ends
              · cases read

theorem stringBody_local (read : List Char) (sound : Bool) :
    Local fun input => stringBody input read sound := by
  intro input cs rest done tail ends
  simp only at done ⊢
  fun_induction stringBody input read sound with
  | case1 => cases done
  | case2 read sound input ih =>
      rw [List.cons_append, stringBody]
      exact ih done
  | case3 read input =>
      cases done
      rw [List.cons_append, stringBody]
      rfl
  | case4 => cases done
  | case5 => cases done
  | case6 read sound input d behind body shorter quote ih =>
      have body := escapeBody_local body tail ends
      have shorter : (behind ++ tail).length < (input ++ tail).length + 1 := by
        simp only [List.length_append]
        omega
      rw [List.cons_append, stringBody]
      simp only [body, shorter, if_true, quote, if_false]
      exact ih done
  | case7 => cases done
  | case8 => cases done
  | case9 read sound c input quote backslash control ih =>
      rw [List.cons_append, stringBody]
      simp only [quote, backslash, control, if_false]
      exact ih done

/-! Every word is shorter than the text in front of which it stands. -/

theorem skipSpace_length (input : Input) : (skipSpace input).length ≤ input.length :=
  (List.dropWhile_suffix isSpace).length_le

theorem rest_length_of_skipSpace {input rest : Input} {s : Text.Symbol}
    (spaced : skipSpace input = s :: rest) : rest.length < input.length := by
  have shorter := skipSpace_length input
  rw [spaced, List.length_cons] at shorter
  exact shorter

theorem word_length {cs : List Char} {input rest : Input} (read : word cs input = .ok rest) :
    rest.length ≤ input.length := by
  rw [word_eq_ok_iff.mp read, List.length_append]
  exact Nat.le_add_left _ _

theorem colon_length {input rest : Input} (read : colon input = .ok rest) :
    rest.length ≤ input.length :=
  Nat.le_trans (word_length read) (skipSpace_length input)

theorem digitRun_length (input : Input) : (digitRun input).2.length ≤ input.length := by
  induction input with
  | nil => exact Nat.le_refl _
  | cons s input ih =>
      rw [digitRun]
      split
      · exact Nat.le_succ_of_le ih
      · exact Nat.le_refl _

theorem wholePart_length {fault : ReadFault} {input rest : Input} {ds : List Nat}
    (read : wholePart fault input = .ok (ds, rest)) : rest.length < input.length := by
  cases input with
  | nil => cases read
  | cons s input =>
      rw [wholePart.eq_def] at read
      simp only at read
      split at read
      · cases read
      · cases input with
        | nil =>
            cases read
            exact Nat.zero_lt_one
        | cons t input =>
            simp only at read
            split at read
            · cases read
            · cases read
              exact Nat.lt_succ_self _
      · cases read
        exact Nat.lt_succ_of_le (digitRun_length input)

theorem digitsPart_length {fault : ReadFault} {input rest : Input} {ds : List Nat}
    (read : digitsPart fault input = .ok (ds, rest)) : rest.length ≤ input.length := by
  have shorter := digitRun_length input
  rw [digitsPart.eq_def] at read
  rcases run : digitRun input with ⟨digits, behind⟩
  rw [run] at read shorter
  cases digits with
  | nil => cases behind <;> cases read
  | cons d digits =>
      cases read
      exact shorter

theorem fractionPart_length {fault : ReadFault} {input rest : Input} {part : Option (List Nat)}
    (read : fractionPart fault input = .ok (part, rest)) : rest.length ≤ input.length := by
  rw [fractionPart.eq_def] at read
  split at read
  · obtain ⟨⟨ds, behind⟩, digits, done⟩ := bind_eq_ok read
    cases done
    exact Nat.le_succ_of_le (digitsPart_length digits)
  · cases read
    exact Nat.le_refl _

theorem exponentSign_length (input : Input) : (exponentSign input).2.length ≤ input.length := by
  rw [exponentSign.eq_def]
  split <;> simp

theorem exponentPart_length {fault : ReadFault} {input rest : Input}
    {part : Option (Bool × List Nat)} (read : exponentPart fault input = .ok (part, rest)) :
    rest.length ≤ input.length := by
  cases input with
  | nil =>
      cases read
      exact Nat.le_refl _
  | cons s input =>
      have shorter := exponentSign_length input
      rw [exponentPart] at read
      split at read
      · rcases signed : exponentSign input with ⟨positive, unsigned⟩
        rw [signed] at read shorter
        obtain ⟨⟨ds, behind⟩, digits, done⟩ := bind_eq_ok read
        cases done
        exact Nat.le_succ_of_le (Nat.le_trans (digitsPart_length digits) shorter)
      · cases read
        exact Nat.le_refl _

theorem numeral_length {fault : ReadFault} {input rest : Input} {n : Numeral}
    (read : numeral fault input = .ok (n, rest)) : rest.length < input.length := by
  obtain ⟨⟨whole, input₁⟩, readWhole, read⟩ := bind_eq_ok read
  obtain ⟨⟨fraction, input₂⟩, readFraction, read⟩ := bind_eq_ok read
  obtain ⟨⟨exponent, input₃⟩, readExponent, read⟩ := bind_eq_ok read
  cases read
  exact Nat.lt_of_le_of_lt (exponentPart_length readExponent)
    (Nat.lt_of_le_of_lt (fractionPart_length readFraction) (wholePart_length readWhole))

theorem hexUnit_length {input rest : Input} {n : Nat} (read : hexUnit input = .ok (n, rest)) :
    rest.length < input.length := by
  rw [hexUnit.eq_def] at read
  split at read
  · split at read
    · cases read
      simp only [List.length_cons]
      omega
    · cases read
  · split at read <;> cases read

theorem skipString_length {input rest : Input} (read : skipString input = .ok rest) :
    rest.length < input.length := by
  fun_induction skipString input with
  | case1 => cases read
  | case2 input ih => exact Nat.lt_succ_of_lt (ih read)
  | case3 input =>
      cases read
      exact Nat.lt_succ_self _
  | case4 => cases read
  | case5 => cases read
  | case6 d input short quote ih => exact Nat.lt_succ_of_lt (Nat.lt_succ_of_lt (ih read))
  | case7 => cases read
  | case8 input n behind unit shorter quote long ih =>
      exact Nat.lt_trans (ih read) shorter
  | case9 => cases read
  | case10 => cases read
  | case11 => cases read
  | case12 c input quote backslash control ih => exact Nat.lt_succ_of_lt (ih read)

/-! Passing over strings. -/

theorem skipString_of_hexUnit {input rest : Input} {n : Nat} (unit : hexUnit input = .ok (n, rest)) :
    skipString (some '\\' :: some 'u' :: input) = skipString rest := by
  have shorter : rest.length < input.length + 2 := Nat.lt_add_right 2 (hexUnit_length unit)
  rw [skipString]
  simp [shortEscape?, unit, shorter]

theorem skipString_of_unitEscape {input rest : Input} {c : Char}
    (read : unitEscape input = .ok (c, rest)) :
    skipString (some '\\' :: some 'u' :: input) = skipString rest := by
  obtain ⟨⟨n, input₁⟩, unit, read⟩ := bind_eq_ok read
  rw [skipString_of_hexUnit unit]
  simp only at read
  split at read
  · cases read
  split at read
  · obtain ⟨input₂, mark, read⟩ := bind_eq_ok read
    obtain ⟨⟨m, input₃⟩, second, read⟩ := bind_eq_ok read
    split at read
    · obtain ⟨-, rfl⟩ := Prod.mk.inj (Except.ok.inj read)
      rw [word_eq_ok_iff.mp mark]
      exact skipString_of_hexUnit second
    · cases read
  · cases read
    rfl

theorem skipString_of_escapeBody {input rest : Input} {c : Char}
    (read : escapeBody input = .ok (c, rest)) :
    skipString (some '\\' :: input) = skipString rest := by
  cases input with
  | nil => cases read
  | cons s input =>
      cases s with
      | none => cases read
      | some d =>
          rw [escapeBody] at read
          cases short : shortEscape? d with
          | some escaped =>
              rw [short] at read
              cases read
              rw [skipString.eq_def]
              simp [short]
          | none =>
              rw [short] at read
              simp only at read
              split at read
              · rename_i unit
                subst unit
                exact skipString_of_unitEscape read
              · cases read

theorem skipString_of_stringBody {input rest : Input} {read cs : List Char} {sound : Bool}
    (body : stringBody input read sound = .ok (cs, rest)) : skipString input = .ok rest := by
  fun_induction stringBody input read sound with
  | case1 => cases body
  | case2 read sound input ih =>
      rw [skipString.eq_def]
      exact ih body
  | case3 read input =>
      cases body
      rw [skipString.eq_def]
      rfl
  | case4 => cases body
  | case5 => cases body
  | case6 read sound input d behind escaped shorter quote ih =>
      rw [skipString_of_escapeBody escaped]
      exact ih body
  | case7 => cases body
  | case8 => cases body
  | case9 read sound c input quote backslash control ih =>
      rw [skipString.eq_def]
      simp only [quote, backslash, control, if_false]
      exact ih body

end VaultTransfers.Json
