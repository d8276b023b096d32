import VaultTransfers.Proofs.Codec.Lexeme

/-!
What the readers of values look at: which of the kinds of values is there, where
the next element of a list or an object begins, and how a value goes on behind
its first sight. From that, no reader of a value looks at what stands behind it.
-/

namespace VaultTransfers.Json

variable {α σ : Type}

/-! Values. -/

/-- What a value shows whose first character has been seen. -/
inductive Shows : Char → Input → Glimpse → Input → Prop
  | string {behind rest : Input} {cs : List Char} (body : stringBody behind [] true = .ok (cs, rest)) :
      Shows '"' behind (.str (String.ofList cs)) rest
  | sequence {behind : Input} : Shows '[' behind .sequence (some '[' :: behind)
  | map {behind : Input} : Shows '\x7b' behind .map (some '\x7b' :: behind)
  | unsigned {c : Char} {behind rest : Input} {n : JsonNumber} (digit : c.isDigit = true)
      (read : number false (some c :: behind) = .ok (n, rest)) : Shows c behind (.num n) rest
  | negative {behind rest : Input} {n : JsonNumber} (read : number true behind = .ok (n, rest)) :
      Shows '-' behind (.num n) rest
  | null {behind rest : Input} (read : word ['u', 'l', 'l'] behind = .ok rest) :
      Shows 'n' behind .null rest
  | yes {behind rest : Input} (read : word ['r', 'u', 'e'] behind = .ok rest) :
      Shows 't' behind (.bool true) rest
  | no {behind rest : Input} (read : word ['a', 'l', 's', 'e'] behind = .ok rest) :
      Shows 'f' behind (.bool false) rest

theorem plain_of_isDigit {c : Char} (digit : c.isDigit = true) : c ≠ '"' ∧ c ≠ '[' ∧ c ≠ '\x7b' := by
  refine ⟨?_, ?_, ?_⟩ <;>
  · rintro rfl
    simp at digit

theorem glimpse_of_shows {input behind rest : Input} {c : Char} {g : Glimpse}
    (spaced : skipSpace input = some c :: behind) (shows_ : Shows c behind g rest) :
    glimpse input = .ok (g, rest) := by
  rw [glimpse, spaced]
  cases shows_ with
  | string body => simp [body, bind, Except.bind]
  | sequence => rfl
  | map => rfl
  | unsigned digit read =>
      obtain ⟨quote, bracket, brace⟩ := plain_of_isDigit digit
      simp [quote, bracket, brace, digit, read, bind, Except.bind]
  | negative read | null read | yes read | no read => simp [read, bind, Except.bind]

theorem shows_of_glimpse {input rest : Input} {g : Glimpse} (read : glimpse input = .ok (g, rest)) :
    ∃ c behind, skipSpace input = some c :: behind ∧ Shows c behind g rest := by
  rw [glimpse.eq_def] at read
  split at read
  · cases read
  · cases read
  rename_i c behind spaced
  refine ⟨c, behind, spaced, ?_⟩
  split at read
  · rename_i quote
    obtain ⟨⟨cs, after⟩, body, done⟩ := bind_eq_ok read
    cases done
    exact quote ▸ .string body
  split at read
  · rename_i bracket
    cases read
    exact bracket ▸ .sequence
  split at read
  · rename_i brace
    cases read
    exact brace ▸ .map
  split at read
  · rename_i digit
    obtain ⟨⟨n, after⟩, number_, done⟩ := bind_eq_ok read
    cases done
    exact .unsigned digit number_
  split at read
  · rename_i minus
    obtain ⟨⟨n, after⟩, number_, done⟩ := bind_eq_ok read
    cases done
    exact minus ▸ .negative number_
  split at read
  · rename_i first
    obtain ⟨after, matched, done⟩ := bind_eq_ok read
    cases done
    exact first ▸ .null matched
  split at read
  · rename_i first
    obtain ⟨after, matched, done⟩ := bind_eq_ok read
    cases done
    exact first ▸ .yes matched
  split at read
  · rename_i first
    obtain ⟨after, matched, done⟩ := bind_eq_ok read
    cases done
    exact first ▸ .no matched
  · cases read

theorem Shows.append {c : Char} {behind rest : Input} {g : Glimpse} (shows_ : Shows c behind g rest)
    {tail : Input} (ends : Ends tail) : Shows c (behind ++ tail) g (rest ++ tail) := by
  cases shows_ with
  | string body => exact .string (stringBody_local [] true body tail ends)
  | sequence => exact .sequence
  | map => exact .map
  | unsigned digit read => exact .unsigned digit (number_local false read tail ends)
  | negative read => exact .negative (number_local true read tail ends)
  | null read => exact .null (word_append read tail)
  | yes read => exact .yes (word_append read tail)
  | no read => exact .no (word_append read tail)

theorem glimpse_local : Local glimpse := by
  intro input g rest read tail ends
  obtain ⟨c, behind, spaced, shows_⟩ := shows_of_glimpse read
  exact glimpse_of_shows (skipSpace_append spaced tail) (shows_.append ends)

/-! Lists and objects. -/

/-- Where an element of a list or an object is looked for: the first one at once, the others behind a
comma. -/
inductive Begins : (first : Bool) → Input → Input → Prop
  | first {input : Input} : Begins true input input
  | later {input start : Input} (comma : skipSpace input = some ',' :: start) :
      Begins false input start

theorem Begins.append {first : Bool} {input start : Input} (begins : Begins first input start)
    (tail : Input) : Begins first (input ++ tail) (start ++ tail) := by
  cases begins with
  | first => exact .first
  | later comma => exact .later (skipSpace_append comma tail)

theorem nextItem_of_closed {first : Bool} {input rest : Input}
    (closed : skipSpace input = some ']' :: rest) : nextItem first input = .ok (.inr rest) := by
  rw [nextItem, closed]
  rfl

theorem nextItem_of_begins {first : Bool} {input start rest : Input} {s : Text.Symbol}
    (begins : Begins first input start) (spaced : skipSpace start = s :: rest)
    (more : s ≠ some ']') : nextItem first input = .ok (.inl (s :: rest)) := by
  cases begins with
  | first => simp [nextItem, spaced, more]
  | later comma => simp [nextItem, comma, spaced, more]

theorem begins_of_nextItem {first : Bool} {input : Input} {next : Input ⊕ Input}
    (read : nextItem first input = .ok next) :
    (∃ rest, skipSpace input = some ']' :: rest ∧ next = .inr rest) ∨
      ∃ start s rest, Begins first input start ∧ skipSpace start = s :: rest ∧ s ≠ some ']' ∧
        next = .inl (s :: rest) := by
  rw [nextItem.eq_def] at read
  split at read
  · cases read
  rename_i s rest spaced
  split at read
  · rename_i closed
    cases read
    exact .inl ⟨rest, closed ▸ spaced, rfl⟩
  rename_i open_
  cases first with
  | true =>
      cases read
      exact .inr ⟨input, s, rest, .first, spaced, open_, rfl⟩
  | false =>
      simp only [Bool.false_eq_true, if_false] at read
      split at read
      · rename_i comma
        split at read
        · cases read
        · rename_i t more spaced'
          split at read
          · cases read
          · rename_i open'
            cases read
            exact .inr ⟨rest, t, more, .later (comma ▸ spaced), spaced', open', rfl⟩
      · cases read

theorem closed_of_nextItem {first : Bool} {input rest : Input}
    (read : nextItem first input = .ok (.inr rest)) : skipSpace input = some ']' :: rest := by
  obtain ⟨_, closed, same⟩ | ⟨_, _, _, _, _, _, same⟩ := begins_of_nextItem read
  · cases same
    exact closed
  · cases same

theorem open_of_nextItem {first : Bool} {input start : Input}
    (read : nextItem first input = .ok (.inl start)) :
    ∃ place s rest, Begins first input place ∧ skipSpace place = s :: rest ∧ s ≠ some ']' ∧
      start = s :: rest := by
  obtain ⟨_, _, same⟩ | ⟨place, s, rest, begins, spaced, more, same⟩ := begins_of_nextItem read
  · cases same
  · cases same
    exact ⟨place, s, rest, begins, spaced, more, rfl⟩

theorem nextName_of_closed {first : Bool} {input rest : Input}
    (closed : skipSpace input = some '\x7d' :: rest) : nextName first input = .ok (.inr rest) := by
  rw [nextName, nextMember, closed]
  rfl

theorem nextName_of_begins {first : Bool} {input start behind rest : Input} {cs : List Char}
    (begins : Begins first input start) (spaced : skipSpace start = some '"' :: behind)
    (body : stringBody behind [] true = .ok (cs, rest)) :
    nextName first input = .ok (.inl (String.ofList cs, rest)) := by
  have named : memberName (some '"' :: behind) = .ok (String.ofList cs, rest) := by
    simp [memberName, body, bind, Except.bind]
  cases begins with
  | first =>
      rw [nextName, nextMember, spaced]
      simp [named, Except.map]
  | later comma =>
      rw [nextName, nextMember, comma]
      simp [spaced, named, Except.map]

theorem body_of_memberName {input rest : Input} {name : String}
    (read : memberName input = .ok (name, rest)) :
    ∃ behind cs, input = some '"' :: behind ∧ stringBody behind [] true = .ok (cs, rest) ∧
      name = String.ofList cs := by
  cases input with
  | nil => cases read
  | cons s behind =>
      rw [memberName] at read
      split at read
      · rename_i quote
        obtain ⟨⟨cs, after⟩, body, done⟩ := bind_eq_ok read
        cases done
        exact ⟨behind, cs, quote ▸ rfl, body, rfl⟩
      · cases read

theorem begins_of_nextMember {first : Bool} {input : Input} {next : Input ⊕ Input}
    (read : nextMember first input = .ok next) :
    (∃ rest, skipSpace input = some '\x7d' :: rest ∧ next = .inr rest) ∨
      ∃ start, Begins first input start ∧ next = .inl (skipSpace start) := by
  rw [nextMember.eq_def] at read
  split at read
  · cases read
  rename_i s rest spaced
  split at read
  · rename_i closed
    cases read
    exact .inl ⟨rest, closed ▸ spaced, rfl⟩
  cases first with
  | true =>
      cases read
      exact .inr ⟨input, .first, by rw [spaced]⟩
  | false =>
      simp only [Bool.false_eq_true, if_false] at read
      split at read
      · rename_i comma
        cases read
        exact .inr ⟨rest, .later (comma ▸ spaced), rfl⟩
      · cases read

theorem begins_of_nextName {first : Bool} {input : Input} {next : (String × Input) ⊕ Input}
    (read : nextName first input = .ok next) :
    (∃ rest, skipSpace input = some '\x7d' :: rest ∧ next = .inr rest) ∨
      ∃ start behind cs rest, Begins first input start ∧ skipSpace start = some '"' :: behind ∧
        stringBody behind [] true = .ok (cs, rest) ∧ next = .inl (String.ofList cs, rest) := by
  rw [nextName.eq_def] at read
  cases member : nextMember first input with
  | error fault =>
      rw [member] at read
      cases read
  | ok place =>
      rw [member] at read
      obtain ⟨rest, closed, rfl⟩ | ⟨start, begins, rfl⟩ := begins_of_nextMember member
      · cases read
        exact .inl ⟨rest, closed, rfl⟩
      · cases named : memberName (skipSpace start) with
        | error fault =>
            simp only [named] at read
            cases read
        | ok found =>
            obtain ⟨name, rest⟩ := found
            simp only [named] at read
            cases read
            obtain ⟨behind, cs, spaced, body, rfl⟩ := body_of_memberName named
            exact .inr ⟨start, behind, cs, rest, begins, spaced, body, rfl⟩

theorem closed_of_nextName {first : Bool} {input rest : Input}
    (read : nextName first input = .ok (.inr rest)) : skipSpace input = some '\x7d' :: rest := by
  obtain ⟨_, closed, same⟩ | ⟨_, _, _, _, _, _, _, same⟩ := begins_of_nextName read
  · cases same
    exact closed
  · cases same

theorem open_of_nextName {first : Bool} {input rest : Input} {name : String}
    (read : nextName first input = .ok (.inl (name, rest))) :
    ∃ start behind cs, Begins first input start ∧ skipSpace start = some '"' :: behind ∧
      stringBody behind [] true = .ok (cs, rest) ∧ name = String.ofList cs := by
  obtain ⟨_, _, same⟩ | ⟨start, behind, cs, _, begins, spaced, body, same⟩ := begins_of_nextName read
  · cases same
  · cases same
    exact ⟨start, behind, cs, begins, spaced, body, rfl⟩

theorem items_local {item : Reader α} (item_local : Local item) (first : Bool) (read : List α) :
    Local fun input => items item input first read := by
  intro input list rest done tail ends
  simp only at done ⊢
  fun_induction items item input first read with
  | case1 => cases done
  | case2 input first read rest next =>
      cases done
      rw [items, nextItem_of_closed (skipSpace_append (closed_of_nextItem next) tail)]
  | case3 => cases done
  | case4 input first read start next a behind taken shorter ih =>
      obtain ⟨place, s, more, begins, spaced, open_, rfl⟩ := open_of_nextItem next
      have next := nextItem_of_begins (begins.append tail) (skipSpace_append spaced tail) open_
      have taken := item_local taken tail ends
      have shorter : (behind ++ tail).length < (input ++ tail).length := by
        simp only [List.length_append]
        omega
      rw [List.cons_append] at taken
      rw [items, next]
      simp only [taken, shorter, if_true]
      exact ih done
  | case5 => cases done

theorem members_local {member : σ → String → Except ReadFault (Reader σ)}
    (reader_local : ∀ {state name reader}, member state name = .ok reader → Local reader)
    (first : Bool) (state : σ) : Local fun input => members member input first state := by
  intro input final rest done tail ends
  simp only at done ⊢
  fun_induction members member input first state with
  | case1 => cases done
  | case2 input first state rest next =>
      cases done
      rw [members, nextName_of_closed (skipSpace_append (closed_of_nextName next) tail)]
  | case3 => cases done
  | case4 => cases done
  | case5 => cases done
  | case6 input first state name behind next reader known start mark after behind' taken shorter ih =>
      obtain ⟨place, quoted, cs, begins, spaced, body, rfl⟩ := open_of_nextName next
      have body := stringBody_local [] true body tail ends
      have next := nextName_of_begins (begins.append tail) (skipSpace_append spaced tail) body
      have taken := reader_local known taken tail ends
      have shorter : (behind' ++ tail).length < (input ++ tail).length := by
        simp only [List.length_append]
        omega
      rw [members, next]
      simp only [known, colon_append mark tail, taken, shorter, if_true]
      exact ih done
  | case7 => cases done

/-- What is done with the members of an object that is read as a value. -/
def gather (depth : Nat) (gathered : List (String × Json)) (name : String) :
    Except ReadFault (Reader (List (String × Json))) :=
  .ok fun input => do
    let (v, rest) ← value depth input
    .ok (insertMember name v gathered, rest)

/-- How a value goes on behind its glimpse. -/
inductive GoesOn : (depth : Nat) → Glimpse → Input → Json → Input → Prop
  | null {depth : Nat} {rest : Input} : GoesOn depth .null rest .null rest
  | bool {depth : Nat} {b : Bool} {rest : Input} : GoesOn depth (.bool b) rest (.bool b) rest
  | num {depth : Nat} {n : JsonNumber} {rest : Input} : GoesOn depth (.num n) rest (.num n) rest
  | str {depth : Nat} {s : String} {rest : Input} : GoesOn depth (.str s) rest (.str s) rest
  | sequence {depth : Nat} {behind rest : Input} {list : List Json}
      (read : items (value depth) behind true [] = .ok (list, rest)) :
      GoesOn (depth + 1) .sequence (some '[' :: behind) (.arr list) rest
  | map {depth : Nat} {behind rest : Input} {gathered : List (String × Json)}
      (read : members (gather depth) behind true [] = .ok (gathered, rest)) :
      GoesOn (depth + 1) .map (some '\x7b' :: behind) (.obj gathered) rest

theorem value_of_goesOn {depth : Nat} {input behind rest : Input} {g : Glimpse} {v : Json}
    (seen : glimpse input = .ok (g, behind)) (goesOn : GoesOn depth g behind v rest) :
    value depth input = .ok (v, rest) := by
  cases goesOn with
  | null | bool | num | str => cases depth <;> simp [value, seen, bind, Except.bind]
  | sequence read => simp [value, seen, read, bind, Except.bind]
  | map read =>
      rw [value, seen]
      exact congrArg (fun x : Except ReadFault _ => x.bind fun p => .ok (Json.obj p.1, p.2)) read

theorem goesOn_of_value {depth : Nat} {input rest : Input} {v : Json}
    (read : value depth input = .ok (v, rest)) :
    ∃ g behind, glimpse input = .ok (g, behind) ∧ GoesOn depth g behind v rest := by
  rw [value.eq_def] at read
  obtain ⟨⟨g, behind⟩, seen, read⟩ := bind_eq_ok read
  obtain ⟨c, _, _, shows_⟩ := shows_of_glimpse seen
  refine ⟨g, behind, seen, ?_⟩
  cases shows_ with
  | string | unsigned | negative | null | yes | no =>
      cases read
      constructor
  | sequence =>
      cases depth with
      | zero => cases read
      | succ depth =>
          obtain ⟨⟨list, after⟩, read, done⟩ := bind_eq_ok read
          cases done
          exact .sequence read
  | map =>
      cases depth with
      | zero => cases read
      | succ depth =>
          obtain ⟨⟨gathered, after⟩, read, done⟩ := bind_eq_ok read
          cases done
          exact .map read

theorem gather_local {depth : Nat} (inner : Local (value depth)) {state : List (String × Json)}
    {name : String} {reader : Reader (List (String × Json))}
    (known : gather depth state name = .ok reader) : Local reader := by
  cases known
  intro input gathered rest read tail ends
  obtain ⟨⟨v, behind⟩, read, done⟩ := bind_eq_ok read
  cases done
  have read := inner read tail ends
  simp only [read, bind, Except.bind]

theorem value_local (depth : Nat) : Local (value depth) := by
  induction depth with
  | zero =>
      intro input v rest read tail ends
      obtain ⟨g, behind, seen, goesOn⟩ := goesOn_of_value read
      refine value_of_goesOn (glimpse_local seen tail ends) ?_
      cases goesOn <;> constructor
  | succ depth ih =>
      intro input v rest read tail ends
      obtain ⟨g, behind, seen, goesOn⟩ := goesOn_of_value read
      refine value_of_goesOn (glimpse_local seen tail ends) ?_
      cases goesOn with
      | null | bool | num | str => constructor
      | sequence read => exact .sequence (items_local ih true [] read tail ends)
      | map read => exact .map (members_local (gather_local ih) true [] read tail ends)

theorem whole_eq_ok_iff {reader : Reader α} {input : Input} {a : α} :
    whole reader input = .ok a ↔ ∃ rest, reader input = .ok (a, rest) ∧ skipSpace rest = [] := by
  constructor
  · intro read
    obtain ⟨⟨a', rest⟩, read, done⟩ := bind_eq_ok read
    simp only at done
    split at done
    · rename_i spaced
      cases done
      exact ⟨rest, read, spaced⟩
    · cases done
  · rintro ⟨rest, read, spaced⟩
    rw [whole, read]
    exact if_pos spaced

end VaultTransfers.Json
