import VaultTransfers.Proofs.Codec.Text

/-!
Objects and records come back member by member, however they are spaced, in
whatever order they have their members and whatever other members they have. What
is said of a single member is that its reader takes the member's text but for
blanks at its end; it may rely on a comma or the closing brace standing behind.
-/

namespace VaultTransfers.Json

variable {α σ : Type}

/-- The reader takes a text that is followed by more of an object, but for blanks at its end. -/
def Takes (reader : Reader α) (text : List Char) (a : α) : Prop :=
  ∃ gap, Blanks gap ∧ gap.length ≤ text.length ∧ ∀ s rest, IsStop s →
    reader (before text (s :: rest)) = .ok (a, before gap (s :: rest))

/-- The text can be passed over, but for blanks at its end. -/
def Skips (text : List Char) : Prop :=
  ∃ gap, Blanks gap ∧ gap.length ≤ text.length ∧ ∀ s rest, IsStop s →
    skipValue (before text (s :: rest)) = .ok (before gap (s :: rest))

theorem Takes.map {β : Type} {reader : Reader α} {text : List Char} {a : α}
    (takes : Takes reader text a) (f : α → β) :
    Takes (fun input => do
      let found ← reader input
      .ok (f found.1, found.2)) text (f a) := by
  obtain ⟨gap, blanks, short, read⟩ := takes
  refine ⟨gap, blanks, short, fun s rest stop => ?_⟩
  simp only [read s rest stop, bind, Except.bind]

theorem takes_of_spells {fit : Glimpse → Except ShapeFault α} {s : String} {a : α}
    {text : List Char} (spells : Spells s text) (fits : fit (.str s) = .ok a) :
    Takes (leaf fit) text a := by
  obtain ⟨gap, blanks, short, seen⟩ := spells.glimpse
  exact ⟨gap, blanks, short, fun t rest stop => leaf_of_glimpse (seen t rest stop.endsNumber) fits⟩

theorem takes_of_digits {n : UInt64} {text : List Char}
    (digits : Padded (Nat.toDigits 10 n.toNat) text) : Takes (leaf fitUInt64) text n := by
  obtain ⟨pre, post, front, back, rfl⟩ := digits
  refine ⟨post, back, by simp; omega, fun s rest stop => ?_⟩
  refine leaf_of_glimpse (g := .num (.int n.toNat)) ?_ (by simp [fitUInt64])
  rw [before_append, glimpse_blanks front, before_append]
  exact glimpse_toDigits n.toNat_lt (ends_blanks back stop.endsNumber rest)

/-! The text of an object. -/

/-- The two sides of a member as they are written, with any blanks on the outside of either. -/
structure Entry where
  name : List Char
  value : List Char

def Entry.text (e : Entry) : List Char :=
  e.name ++ ':' :: e.value

/-- An object of entries, of which there may be none; only then the gap is needed. -/
def objectText (gap : List Char) (entries : List Entry) : List Char :=
  '\x7b' :: (gap ++ (commaJoined (entries.map Entry.text) ++ ['\x7d']))

/-- The text is an object of the entries with blanks around it. -/
def IsObject (entries : List Entry) (text : List Char) : Prop :=
  ∃ gap, Blanks gap ∧ Padded (objectText gap entries) text

/-- The symbols behind an entry: the entries that follow it, each behind a comma. -/
def later (entries : List Entry) (rest : Input) : Input :=
  before ((entries.map Entry.text).flatMap (',' :: ·)) (some '\x7d' :: rest)

/-- The symbols behind the brace of an object. -/
def inside : List Entry → Input → Input
  | [], rest => some '\x7d' :: rest
  | e :: entries, rest => before e.text (later entries rest)

theorem commaJoined_cons (t : List Char) (ts : List (List Char)) :
    commaJoined (t :: ts) = t ++ ts.flatMap (',' :: ·) := by
  induction ts generalizing t with
  | nil => simp [commaJoined]
  | cons u us ih =>
      rw [commaJoined, ih, List.flatMap_cons, List.cons_append]
      simp

theorem before_objectText (gap : List Char) (entries : List Entry) (rest : Input) :
    before (objectText gap entries) rest = some '\x7b' :: before gap (inside entries rest) := by
  rw [objectText, before_cons, before_append, before_append]
  cases entries with
  | nil => rfl
  | cons e entries =>
      rw [List.map_cons, commaJoined_cons, before_append]
      rfl

theorem later_cons (e : Entry) (entries : List Entry) (rest : Input) :
    later (e :: entries) rest = some ',' :: before e.text (later entries rest) := by
  rw [later, List.map_cons, List.flatMap_cons, before_append]
  rfl

theorem begins_later {gap : List Char} (blanks : Blanks gap) (e : Entry) (entries : List Entry)
    (rest : Input) :
    Begins false (before gap (later (e :: entries) rest)) (before e.text (later entries rest)) := by
  refine .later ?_
  rw [skipSpace_blanks blanks, later_cons]
  rfl

theorem later_stops (entries : List Entry) (rest : Input) :
    ∃ s tail, IsStop s ∧ later entries rest = s :: tail := by
  cases entries with
  | nil => exact ⟨some '\x7d', rest, .inr rfl, rfl⟩
  | cons e entries => exact ⟨some ',', _, .inl rfl, later_cons e entries rest⟩

theorem glimpse_objectText (gap : List Char) (entries : List Entry) (rest : Input) :
    glimpse (before (objectText gap entries) rest) =
      .ok (.map, some '\x7b' :: before gap (inside entries rest)) := by
  rw [before_objectText]
  exact glimpse_of_shows rfl .map

/-- What the loop over the members does with an entry that is next. -/
theorem members_of_entry {member : σ → String → Except ReadFault (Reader σ)} {e : Entry}
    {name : String} (named : Spells name e.name) {first : Bool} {input start tail : Input}
    (begins : Begins first input start) (here : skipSpace start = skipSpace (before e.text tail))
    (state : σ) :
    members member input first state = (do
      let reader ← member state name
      let found ← reader (before e.value tail)
      if found.2.length < input.length then members member found.2 false found.1
      else .error .malformed) := by
  obtain ⟨gap, blanks, -, body⟩ := named.body
  obtain ⟨behind, spaced, read⟩ := body (some ':') (before e.value tail) (by decide)
  have text : before e.text tail = before e.name (some ':' :: before e.value tail) := by
    rw [Entry.text, before_append, before_cons]
  have next := nextName_of_begins begins (here.trans (text ▸ spaced)) read
  have mark : colon (before gap (some ':' :: before e.value tail)) = .ok (before e.value tail) := by
    rw [colon, skipSpace_blanks blanks]
    rfl
  rw [members, next]
  simp only [String.ofList_toList, mark]
  cases member state name with
  | error fault => rfl
  | ok reader =>
      cases taken : reader (before e.value tail) with
      | error fault => simp [taken, bind, Except.bind]
      | ok found => simp [taken, bind, Except.bind]

/-- The loop over the members ends at the closing brace. -/
theorem members_of_closed (member : σ → String → Except ReadFault (Reader σ)) {gap : List Char}
    (blanks : Blanks gap) (first : Bool) (state : σ) (rest : Input) :
    members member (before gap (some '\x7d' :: rest)) first state = .ok (state, rest) := by
  have closing : nextName first (before gap (some '\x7d' :: rest)) = .ok (.inr rest) := by
    apply nextName_of_closed
    rw [skipSpace_blanks blanks]
    rfl
  rw [members, closing]

/-- Taking up the entries one by one leads from one state to another. -/
def Gathers (member : σ → String → Except ReadFault (Reader σ)) : List Entry → σ → σ → Prop
  | [], state, final => final = state
  | e :: entries, state, final =>
    ∃ name reader next, Spells name e.name ∧ member state name = .ok reader ∧
      Takes reader e.value next ∧ Gathers member entries next final

section

variable {member : σ → String → Except ReadFault (Reader σ)} {entries : List Entry}
  {state final : σ} {gap : List Char}

theorem members_later (gathers : Gathers member entries state final) (blanks : Blanks gap)
    (rest : Input) :
    members member (before gap (later entries rest)) false state = .ok (final, rest) := by
  induction entries generalizing state gap with
  | nil =>
      obtain rfl : final = state := gathers
      exact members_of_closed member blanks false final rest
  | cons e entries ih =>
      obtain ⟨name, reader, next, named, known, ⟨gap', blanks', short, read⟩, gathers⟩ := gathers
      obtain ⟨s, tail, stop, same⟩ := later_stops entries rest
      have shorter : (before gap' (later entries rest)).length <
          (before gap (later (e :: entries) rest)).length := by
        rw [later_cons]
        simp only [length_before, List.length_cons, Entry.text, List.length_append]
        omega
      have taken := read s tail stop
      rw [← same] at taken
      rw [members_of_entry named (begins_later blanks e entries rest) rfl, known]
      simp only [taken, bind, Except.bind, shorter, if_true]
      exact ih gathers blanks'

theorem members_inside (gathers : Gathers member entries state final) (blanks : Blanks gap)
    (rest : Input) :
    members member (before gap (inside entries rest)) true state = .ok (final, rest) := by
  cases entries with
  | nil =>
      obtain rfl : final = state := gathers
      exact members_of_closed member blanks true final rest
  | cons e entries =>
      obtain ⟨name, reader, next, named, known, ⟨gap', blanks', short, read⟩, gathers⟩ := gathers
      obtain ⟨s, tail, stop, same⟩ := later_stops entries rest
      have shorter : (before gap' (later entries rest)).length <
          (before gap (before e.text (later entries rest))).length := by
        simp only [length_before, List.length_append, List.length_cons, Entry.text]
        omega
      have taken := read s tail stop
      rw [← same] at taken
      rw [inside, members_of_entry named .first (skipSpace_blanks blanks _), known]
      simp only [taken, bind, Except.bind, shorter, if_true]
      exact members_later gathers blanks' rest

end

/-- An object is read as the value of its members. -/
theorem value_objectText {depth : Nat} {entries : List Entry} {gathered : List (String × Json)}
    {gap : List Char} (gathers : Gathers (gather depth) entries [] gathered) (blanks : Blanks gap)
    (rest : Input) :
    value (depth + 1) (before (objectText gap entries) rest) = .ok (.obj gathered, rest) :=
  value_of_goesOn (glimpse_objectText gap entries rest) (.map (members_inside gathers blanks rest))

theorem value_blanks {gap : List Char} (blanks : Blanks gap) (depth : Nat) (input : Input) :
    value depth (before gap input) = value depth input := by
  cases depth <;> rw [value, value, glimpse_blanks blanks]

/-- The entry of a member as it is written without blanks. -/
def written (m : String × List Char) : Entry :=
  ⟨renderString m.1, m.2⟩

theorem renderObject_eq (members : List (String × List Char)) :
    renderObject members = objectText [] (members.map written) := by
  rw [renderObject, objectText, List.map_map]
  rfl

/-! Objects of strings. -/

theorem insertMember_of_last {name : String} {a : α} {members : List (String × α)}
    (last : ∀ m ∈ members, m.1 < name) : insertMember name a members = members ++ [(name, a)] := by
  induction members with
  | nil => rfl
  | cons m ms ih =>
      obtain ⟨other, old⟩ := m
      have earlier : other < name := last (other, old) List.mem_cons_self
      have later : ¬ name < other := String.lt_asymm earlier
      have apart : name ≠ other := by
        rintro rfl
        exact String.lt_irrefl name earlier
      rw [insertMember, if_neg later, if_neg apart,
        ih fun m member => last m (List.mem_cons_of_mem _ member), List.cons_append]

def textMember (m : String × String) : String × Json :=
  (m.1, .str m.2)

theorem takes_string (depth : Nat) {s : String} {text : List Char} (spells : Spells s text) :
    Takes (value depth) text (.str s) := by
  obtain ⟨gap, blanks, short, seen⟩ := spells.glimpse
  exact ⟨gap, blanks, short, fun t rest stop => value_of_goesOn (seen t rest stop.endsNumber) .str⟩

theorem gathers_textMembers (depth : Nat) (texts : List (String × String))
    (gathered : List (String × Json)) (sorted : (texts.map (·.1)).Pairwise (· < ·))
    (later : ∀ m ∈ gathered, ∀ t ∈ texts, m.1 < t.1) :
    Gathers (gather depth) (texts.map fun t => written (t.1, renderString t.2)) gathered
      (gathered ++ texts.map textMember) := by
  induction texts generalizing gathered with
  | nil => exact List.append_nil gathered
  | cons t ts ih =>
      obtain ⟨first, sorted⟩ := List.pairwise_cons.mp sorted
      refine ⟨t.1, _, gathered ++ [textMember t], spells_renderString t.1, rfl, ?_, ?_⟩
      · have last : insertMember t.1 (.str t.2) gathered = gathered ++ [textMember t] :=
          insertMember_of_last fun m member => later m member t List.mem_cons_self
        rw [← last]
        exact (takes_string depth (spells_renderString t.2)).map fun v => insertMember t.1 v gathered
      · have whole : gathered ++ (t :: ts).map textMember =
            gathered ++ [textMember t] ++ ts.map textMember := by
          simp
        rw [whole]
        apply ih _ sorted
        intro m member u among
        rcases List.mem_append.mp member with old | new
        · exact later m old u (List.mem_cons_of_mem t among)
        · rw [List.mem_singleton.mp new]
          exact first u.1 (List.mem_map_of_mem among)

theorem renderMembers_textMembers (texts : List (String × String)) :
    renderMembers (texts.map textMember) = texts.map fun t => (t.1, renderString t.2) := by
  induction texts with
  | nil => rfl
  | cons t ts ih => simp [renderMembers, textMember, render, ih]

theorem value_textObject (depth : Nat) (texts : List (String × String))
    (sorted : (texts.map (·.1)).Pairwise (· < ·)) (rest : Input) :
    value (depth + 1) (before (render (.obj (texts.map textMember))) rest) =
      .ok (.obj (texts.map textMember), rest) := by
  have gathers := gathers_textMembers depth texts [] sorted (by simp)
  rw [render, renderMembers_textMembers, renderObject_eq, List.map_map]
  exact value_objectText gathers .nil rest

end VaultTransfers.Json
