import Mathlib.Data.List.DropRight
import VaultTransfers.Proofs.Codec.Locality

/-!
Passing over a value ends where reading it ends. The brackets that are open around
a value do not matter for that: behind the value the passing goes on as it would
have if the value had not been there.
-/

namespace VaultTransfers.Json

variable {α : Type}

theorem skipPlain_length {input rest : Input} {opened : Option Bracket}
    (read : skipPlain input = .ok (opened, rest)) : rest.length < input.length := by
  rw [skipPlain.eq_def] at read
  split at read
  · cases read
  · cases read
  rename_i c behind spaced
  have shorter := rest_length_of_skipSpace spaced
  split at read
  · obtain ⟨after, skipped, done⟩ := bind_eq_ok read
    cases done
    exact Nat.lt_trans (skipString_length skipped) shorter
  split at read
  · cases read
    exact shorter
  split at read
  · cases read
    exact shorter
  split at read
  · obtain ⟨⟨n, after⟩, digits, done⟩ := bind_eq_ok read
    cases done
    exact Nat.lt_of_lt_of_le (numeral_length digits) shorter
  split at read
  · obtain ⟨⟨n, after⟩, digits, done⟩ := bind_eq_ok read
    cases done
    exact Nat.lt_trans (numeral_length digits) shorter
  have literal {cs : List Char}
      (read : (do .ok (none, ← word cs behind) : Except ReadFault (Option Bracket × Input)) =
        .ok (opened, rest)) : rest.length < input.length := by
    obtain ⟨after, matched, done⟩ := bind_eq_ok read
    cases done
    exact Nat.lt_of_le_of_lt (word_length matched) shorter
  split at read
  · exact literal read
  split at read
  · exact literal read
  split at read
  · exact literal read
  · cases read

theorem closeBrackets_length {stack opened : List Bracket} {fresh : Bool} {input rest : Input}
    (read : closeBrackets stack fresh input = .ok (opened, rest)) : rest.length ≤ input.length := by
  induction stack generalizing fresh input with
  | nil =>
      cases read
      exact Nat.le_refl _
  | cons b stack ih =>
      rw [closeBrackets.eq_def] at read
      simp only at read
      split at read
      · cases read
      rename_i s behind spaced
      have shorter := rest_length_of_skipSpace spaced
      split at read
      · exact Nat.le_trans (ih read) (Nat.le_of_lt shorter)
      split at read
      · cases read
        exact shorter
      split at read
      · cases read
        exact Nat.le_of_lt shorter
      · cases read

theorem skipName_length {input rest : Input} (read : skipName input = .ok rest) :
    rest.length ≤ input.length := by
  rw [skipName.eq_def] at read
  split at read
  · cases read
  rename_i s behind spaced
  have shorter := rest_length_of_skipSpace spaced
  split at read
  · obtain ⟨after, skipped, mark⟩ := bind_eq_ok read
    have h₁ := colon_length mark
    have h₂ := skipString_length skipped
    omega
  · cases read

/-! What goes on behind a value. -/

/-- The passing behind a value that is inside of open brackets, or behind a bracket that has just been
opened. -/
def resume (stack : List Bracket) (fresh : Bool) (input : Input) : Except ReadFault Input :=
  match closeBrackets stack fresh input with
  | .error fault => .error fault
  | .ok ([], rest) => .ok rest
  | .ok (b :: stack, rest) =>
    match if b = .curly then skipName rest else .ok rest with
    | .error fault => .error fault
    | .ok start => skipWithin (b :: stack) start

theorem skipWithin_of_plain {stack : List Bracket} {input rest : Input} {opened : Option Bracket}
    (plain : skipPlain input = .ok (opened, rest)) :
    skipWithin stack input = resume (opened.toList ++ stack) opened.isSome rest := by
  have here := skipPlain_length plain
  rw [skipWithin, plain, resume]
  simp only
  cases closed : closeBrackets (opened.toList ++ stack) opened.isSome rest with
  | error fault => rfl
  | ok left =>
      obtain ⟨stack', behind⟩ := left
      have there := closeBrackets_length closed
      cases stack' with
      | nil => rfl
      | cons b stack' =>
          simp only
          cases named : (if b = .curly then skipName behind else .ok behind) with
          | error fault => rfl
          | ok start =>
              have shorter : start.length < input.length := by
                split at named
                · have name := skipName_length named
                  omega
                · cases named
                  omega
              simp only [shorter, if_true]

theorem skipWithin_length {stack : List Bracket} {input rest : Input}
    (read : skipWithin stack input = .ok rest) : rest.length < input.length := by
  fun_induction skipWithin stack input with
  | case1 => cases read
  | case2 => cases read
  | case3 stack input opened behind plain rest closed =>
      cases read
      exact Nat.lt_of_le_of_lt (closeBrackets_length closed) (skipPlain_length plain)
  | case4 => cases read
  | case5 stack input opened behind plain b stack' place closed start named shorter ih =>
      exact Nat.lt_trans (ih read) shorter
  | case6 => cases read

theorem skipSpace_skipSpace (input : Input) : skipSpace (skipSpace input) = skipSpace input :=
  List.dropWhile_idempotent _ _

theorem skipWithin_skipSpace (stack : List Bracket) (input : Input) :
    skipWithin stack (skipSpace input) = skipWithin stack input := by
  have same : skipPlain (skipSpace input) = skipPlain input := by
    rw [skipPlain, skipPlain, skipSpace_skipSpace]
  cases plain : skipPlain input with
  | error fault =>
      rw [skipWithin, skipWithin, same, plain]
  | ok found =>
      obtain ⟨opened, rest⟩ := found
      rw [skipWithin_of_plain plain, skipWithin_of_plain (same.trans plain)]

theorem resume_of_closed {b : Bracket} {stack : List Bracket} {fresh : Bool} {input rest : Input}
    (closed : skipSpace input = some b.closing :: rest) :
    resume (b :: stack) fresh input = resume stack false rest := by
  rw [resume, resume, closeBrackets, closed]
  simp

theorem closeBrackets_of_begins {b : Bracket} (stack : List Bracket) {first : Bool}
    {input start rest : Input} {s : Text.Symbol} (begins : Begins first input start)
    (spaced : skipSpace start = s :: rest) (more : s ≠ some b.closing) :
    ∃ place, skipSpace place = s :: rest ∧
      closeBrackets (b :: stack) first input = .ok (b :: stack, place) := by
  cases begins with
  | first =>
      refine ⟨s :: rest, ?_, ?_⟩
      · rw [← spaced, skipSpace_skipSpace]
      · rw [closeBrackets, spaced]
        simp [more]
  | later comma =>
      have apart : some ',' ≠ some b.closing := by
        cases b <;> decide
      refine ⟨start, spaced, ?_⟩
      rw [closeBrackets, comma]
      simp [apart]

/-- Passing over the elements of a list goes on with the element that is next. -/
theorem resume_of_item {stack : List Bracket} {first : Bool} {input start rest : Input}
    {s : Text.Symbol} (begins : Begins first input start) (spaced : skipSpace start = s :: rest)
    (more : s ≠ some ']') :
    resume (.square :: stack) first input = skipWithin (.square :: stack) (s :: rest) := by
  obtain ⟨place, there, closed⟩ := closeBrackets_of_begins (b := .square) stack begins spaced more
  rw [resume, closed, ← there, skipWithin_skipSpace]
  rfl

/-- Passing over the members of an object goes on with the value behind the next name. -/
theorem resume_of_name {stack : List Bracket} {first : Bool} {input start behind rest place : Input}
    (begins : Begins first input start) (spaced : skipSpace start = some '"' :: behind)
    (skipped : skipString behind = .ok rest) (mark : colon rest = .ok place) :
    resume (.curly :: stack) first input = skipWithin (.curly :: stack) place := by
  obtain ⟨name, there, closed⟩ :=
    closeBrackets_of_begins (b := .curly) stack begins spaced (by decide)
  have named : skipName name = .ok place := by
    rw [skipName, there]
    simp [skipped, mark, bind, Except.bind]
  rw [resume, closed]
  simp only [if_true, named]

/-! Passing over what a reader takes. -/

theorem numeral_of_number (fault : ReadFault) {negative : Bool} {input rest : Input} {n : JsonNumber}
    (read : number negative input = .ok (n, rest)) : ∃ parts, numeral fault input = .ok (parts, rest) := by
  obtain ⟨⟨parts, behind⟩, readNumeral, read⟩ := bind_eq_ok read
  simp only at read
  split at read
  · cases read
    have readNumeral := numeral_carries .ended fault readNumeral [] .nil
    rw [List.append_nil, List.append_nil] at readNumeral
    exact ⟨parts, readNumeral⟩
  · cases read

theorem skipPlain_of_shows {input behind rest : Input} {c : Char} {g : Glimpse}
    (spaced : skipSpace input = some c :: behind) (shows_ : Shows c behind g rest)
    (plain : g ≠ .sequence ∧ g ≠ .map) : skipPlain input = .ok (none, rest) := by
  rw [skipPlain, spaced]
  cases shows_ with
  | string body => simp [skipString_of_stringBody body, bind, Except.bind]
  | sequence => exact absurd rfl plain.1
  | map => exact absurd rfl plain.2
  | unsigned digit read =>
      obtain ⟨quote, bracket, brace⟩ := plain_of_isDigit digit
      obtain ⟨parts, read⟩ := numeral_of_number .malformed read
      simp [quote, bracket, brace, digit, read, bind, Except.bind]
  | negative read =>
      obtain ⟨parts, read⟩ := numeral_of_number .malformed read
      simp [read, bind, Except.bind]
  | null read | yes read | no read => simp [read, bind, Except.bind]

/-- Where the reader takes a value, passing over the value goes on. -/
def Passed (reader : Reader α) : Prop :=
  ∀ {input : Input} {a : α} {rest : Input}, reader input = .ok (a, rest) →
    ∀ stack, skipWithin stack input = resume stack false rest

theorem skipValue_of_passed {reader : Reader α} (passed : Passed reader) {input rest : Input} {a : α}
    (read : reader input = .ok (a, rest)) : skipValue input = .ok rest := by
  rw [skipValue, passed read]
  rfl

theorem leaf_passed {fit : Glimpse → Except ShapeFault α}
    (noList : (fit .sequence).toOption = none) (noObject : (fit .map).toOption = none) :
    Passed (leaf fit) := by
  intro input a rest read stack
  obtain ⟨⟨g, behind⟩, seen, read⟩ := bind_eq_ok read
  simp only at read
  split at read
  · rename_i fits
    cases read
    obtain ⟨c, after, spaced, shows_⟩ := shows_of_glimpse seen
    refine skipWithin_of_plain (skipPlain_of_shows spaced shows_ ⟨?_, ?_⟩)
    · rintro rfl
      rw [fits] at noList
      cases noList
    · rintro rfl
      rw [fits] at noObject
      cases noObject
  · cases read

theorem resume_of_items {item : Reader α} (item_passed : Passed item) {first : Bool}
    {read list : List α} {input rest : Input}
    (done : items item input first read = .ok (list, rest)) (stack : List Bracket) :
    resume (.square :: stack) first input = resume stack false rest := by
  fun_induction items item input first read with
  | case1 => cases done
  | case2 input first read behind next =>
      cases done
      exact resume_of_closed (closed_of_nextItem next)
  | case3 => cases done
  | case4 input first read start next a behind taken shorter ih =>
      obtain ⟨place, s, more, begins, spaced, open_, rfl⟩ := open_of_nextItem next
      rw [resume_of_item begins spaced open_, item_passed taken]
      exact ih done
  | case5 => cases done

theorem resume_of_members {σ : Type} {member : σ → String → Except ReadFault (Reader σ)}
    (member_passed : ∀ {state name reader}, member state name = .ok reader → Passed reader)
    {first : Bool} {state final : σ} {input rest : Input}
    (done : members member input first state = .ok (final, rest)) (stack : List Bracket) :
    resume (.curly :: stack) first input = resume stack false rest := by
  fun_induction members member input first state with
  | case1 => cases done
  | case2 input first state behind next =>
      cases done
      exact resume_of_closed (closed_of_nextName next)
  | case3 => cases done
  | case4 => cases done
  | case5 => cases done
  | case6 input first state name behind next reader known start mark after behind' taken shorter ih =>
      obtain ⟨place, quoted, cs, begins, spaced, body, rfl⟩ := open_of_nextName next
      rw [resume_of_name begins spaced (skipString_of_stringBody body) mark,
        member_passed known taken]
      exact ih done
  | case7 => cases done

theorem gather_passed {depth : Nat} (inner : Passed (value depth)) {state : List (String × Json)}
    {name : String} {reader : Reader (List (String × Json))}
    (known : gather depth state name = .ok reader) : Passed reader := by
  cases known
  intro input gathered rest read stack
  obtain ⟨⟨v, behind⟩, read, done⟩ := bind_eq_ok read
  cases done
  exact inner read stack

theorem value_passed (depth : Nat) : Passed (value depth) := by
  induction depth with
  | zero =>
      intro input v rest read stack
      obtain ⟨g, behind, seen, goesOn⟩ := goesOn_of_value read
      obtain ⟨c, after, spaced, shows_⟩ := shows_of_glimpse seen
      cases goesOn with
      | null | bool | num | str =>
          exact skipWithin_of_plain (skipPlain_of_shows spaced shows_ ⟨nofun, nofun⟩)
  | succ depth ih =>
      intro input v rest read stack
      obtain ⟨g, behind, seen, goesOn⟩ := goesOn_of_value read
      obtain ⟨c, after, spaced, shows_⟩ := shows_of_glimpse seen
      cases goesOn with
      | null | bool | num | str =>
          exact skipWithin_of_plain (skipPlain_of_shows spaced shows_ ⟨nofun, nofun⟩)
      | @sequence _ inside _ _ read =>
          have plain : skipPlain input = .ok (some .square, inside) := by
            cases shows_
            rw [skipPlain, spaced]
            rfl
          rw [skipWithin_of_plain plain]
          exact resume_of_items ih read stack
      | @map _ inside _ _ read =>
          have plain : skipPlain input = .ok (some .curly, inside) := by
            cases shows_
            rw [skipPlain, spaced]
            rfl
          rw [skipWithin_of_plain plain]
          exact resume_of_members (gather_passed ih) read stack

end VaultTransfers.Json
