import VaultTransfers.Proofs.Codec.Message

/-!
What a message may look like. Its fields may come in any order and any spacing, and
with members that nobody asked for among them, which may be any JSON; the same goes
for the members of the event data. But no field may be missing, and none may come
twice, with whatever value. Dates are read as clocks show them.
-/

namespace VaultTransfers.Message

open Json (Spells Valid Entry IsObject Lists Blanks Passed before later)

/-! Every field is passed where it is read. -/

theorem string_of_kindName {input rest : Json.Input} {kind : EventKind}
    (read : Json.leaf fitKindName input = .ok (kind, rest)) :
    ∃ behind cs, Json.skipSpace input = some '"' :: behind ∧
      Json.stringBody behind [] true = .ok (cs, rest) := by
  obtain ⟨⟨g, left⟩, seen, read⟩ := Json.bind_eq_ok read
  obtain ⟨c, behind, spaced, shows_⟩ := Json.shows_of_glimpse seen
  cases shows_ with
  | @string _ _ cs body =>
      simp only at read
      split at read
      · cases read
        exact ⟨behind, cs, spaced, body⟩
      · cases read
  | _ => cases read

theorem readKind_passed (depth : Nat) : Passed (readKind depth) := by
  intro input kind rest read stack
  unfold readKind at read
  split at read
  · cases read
  rename_i s behind spaced
  split at read
  · rw [← Json.skipWithin_skipSpace, spaced]
    exact Json.leaf_passed rfl rfl read stack
  split at read
  -- The kind is the one name of an object that has null for it.
  · rename_i brace
    obtain ⟨rfl, -⟩ := brace
    obtain ⟨⟨kind, afterName⟩, name, read⟩ := Json.bind_eq_ok read
    obtain ⟨afterColon, mark, read⟩ := Json.bind_eq_ok read
    obtain ⟨⟨_, afterNull⟩, null, read⟩ := Json.bind_eq_ok read
    obtain ⟨afterBrace, closing, read⟩ := Json.bind_eq_ok read
    cases read
    obtain ⟨quoted, cs, quote, body⟩ := string_of_kindName name
    have opened : Json.skipPlain input = .ok (some .curly, behind) := by
      rw [Json.skipPlain, spaced]
      rfl
    rw [Json.skipWithin_of_plain opened]
    refine (Json.resume_of_name .first quote (Json.skipString_of_stringBody body) mark).trans ?_
    rw [Json.leaf_passed rfl rfl null]
    exact Json.resume_of_closed (Json.word_eq_ok_iff.mp closing)
  · cases read

theorem readField_passed (depth : Nat) (f : Field) : Passed (readField depth f) := by
  cases f with
  | kind => exact readKind_passed depth
  | eventData => exact Json.value_passed depth
  | _ => exact Json.leaf_passed rfl rfl

/-! Drafts of messages. -/

theorem require_eq_ok {d : layout.Draft} {f : Field} {v : f.Value}
    (found : layout.require d f = .ok v) : d f = some v := by
  unfold Json.Layout.require at found
  split at found
  · rename_i here
    cases found
    exact here
  · cases found

theorem draft_of_ofDraft {d : layout.Draft} {m : Message} (done : ofDraft d = .ok m) (f : Field) :
    d f = some (m.fieldValue f) := by
  unfold ofDraft at done
  obtain ⟨kind, h₁, done⟩ := Json.bind_eq_ok done
  obtain ⟨txHash, h₂, done⟩ := Json.bind_eq_ok done
  obtain ⟨blockNumber, h₃, done⟩ := Json.bind_eq_ok done
  obtain ⟨logIndex, h₄, done⟩ := Json.bind_eq_ok done
  obtain ⟨date, h₅, done⟩ := Json.bind_eq_ok done
  obtain ⟨wallet, h₆, done⟩ := Json.bind_eq_ok done
  obtain ⟨eventData, h₇, done⟩ := Json.bind_eq_ok done
  obtain ⟨amount, h₈, done⟩ := Json.bind_eq_ok done
  obtain ⟨fromAsset, h₉, done⟩ := Json.bind_eq_ok done
  obtain ⟨toAsset, h₁₀, done⟩ := Json.bind_eq_ok done
  obtain ⟨publishedAt, h₁₁, done⟩ := Json.bind_eq_ok done
  cases done
  cases f <;> exact require_eq_ok ‹_›

/-- A value of a field that tells what the event's message has there. -/
def Recovers (e : VaultEvent) (publishedAt : Instant) : (f : Field) → f.Value → Prop
  | .eventData, j => Payload.ofJson e.payload.kind j = .ok e.payload
  | f, v => v = (ofEvent e publishedAt).shown.fieldValue f

theorem recovers_iff {e : VaultEvent} {t : Instant} {f : Field} (plain : f ≠ .eventData) (v : f.Value) :
    Recovers e t f v ↔ v = (ofEvent e t).shown.fieldValue f := by
  cases f with
  | eventData => exact absurd rfl plain
  | _ => exact Iff.rfl

theorem recovers_of_encodes {e : VaultEvent} {t : Instant} {f : Field} {text : List Char}
    (encodes : Encodes e t f text) :
    ∃ v, Json.Takes (readField (Json.nestingLimit - 1) f) text v ∧ Recovers e t f v := by
  by_cases plain : f = .eventData
  · subst plain
    exact Payload.takes_of_encodes encodes
  · exact ⟨_, takes_of_encodes _ encodes plain, (recovers_iff plain _).mpr rfl⟩

/-- The message of a draft that has all fields. -/
def ofValues (values : (f : Field) → f.Value) : Message :=
  ⟨values .kind, values .txHash, values .blockNumber, values .logIndex, values .date, values .wallet,
    values .eventData, values .amount, values .fromAsset, values .toAsset, values .publishedAt⟩

theorem fieldValue_ofValues (values : (f : Field) → f.Value) (f : Field) :
    (ofValues values).fieldValue f = values f := by
  cases f <;> rfl

theorem ofDraft_of_recovers {e : VaultEvent} {t : Instant} {d : layout.Draft}
    (found : ∀ f : Field, ∃ v, d f = some v ∧ Recovers e t f v) :
    ∃ m, ofDraft d = .ok m ∧ m.payload = .ok e.payload ∧
      ∀ f, f ≠ .eventData → m.fieldValue f = (ofEvent e t).shown.fieldValue f := by
  choose values here recovers using found
  obtain rfl : d = fun f => some (values f) := funext here
  refine ⟨ofValues values, rfl, ?_, fun f plain => ?_⟩
  · have kind : values .kind = e.kind := recovers .kind
    have data : Payload.ofJson e.kind (values .eventData) = .ok e.payload := recovers .eventData
    rwa [← kind] at data
  · exact (fieldValue_ofValues values f).trans ((recovers_iff plain _).mp (recovers f))

/-- All fields that are told as clocks show them are as they were just if the dates are. -/
theorem fieldValue_shown_iff {m : Message} :
    (∀ f, f ≠ .eventData → m.shown.fieldValue f = m.fieldValue f) ↔
      m.date.OnClock ∧ m.publishedAt.OnClock := by
  rw [← shown_eq_self_iff]
  refine ⟨fun same => ?_, fun same f _ => by rw [same]⟩
  have date : m.date.shown = m.date := same .date (by decide)
  have publishedAt : m.publishedAt.shown = m.publishedAt := same .publishedAt (by decide)
  rw [shown, date, publishedAt]

/-! Messages from the texts of objects. -/

section

variable {entries : List Entry} {gap pre post : List Char}

theorem ofBytes_eq_ok_iff {m : Message} (front : Blanks pre) :
    ofBytes (Text.utf8 (pre ++ (Json.objectText gap entries ++ post))) = .ok m ↔
      ∃ rest, layout.record Json.nestingLimit readField ofDraft
          (before (Json.objectText gap entries) (before post [])) = .ok (m, rest) ∧
        Json.skipSpace rest = [] := by
  have symbols : Text.symbols (Text.utf8 (pre ++ (Json.objectText gap entries ++ post))) =
      before pre (before (Json.objectText gap entries) (before post [])) := by
    rw [Text.symbols_utf8, ← Json.before_append, ← Json.before_append, before, List.append_nil,
      List.append_assoc]
  have same := layout.record_blanks front Json.nestingLimit readField ofDraft
    (before (Json.objectText gap entries) (before post []))
  rw [ofBytes, Json.whole_eq_ok_iff, symbols]
  exact exists_congr fun rest => and_congr_left' (by rw [← same])

/-- A text that lists the fields of an event's message is read as a message of that event. -/
theorem ofBytes_of_lists {e : VaultEvent} {t : Instant} {listed : List Field} (blanks : Blanks gap)
    (front : Blanks pre) (back : Blanks post)
    (lists : Lists Field.all Field.name (Encodes e t) (fun value => ∃ depth, Valid depth value) entries
      listed)
    (perm : listed.Perm Field.all) :
    ∃ m, ofBytes (Text.utf8 (pre ++ (Json.objectText gap entries ++ post))) = .ok m ∧
      m.payload = .ok e.payload ∧
      ∀ f, f ≠ .eventData → m.fieldValue f = (ofEvent e t).shown.fieldValue f := by
  have takes : ∀ f text, Encodes e t f text →
      ∃ v, Json.Takes (readField (Json.nestingLimit - 1) f) text v ∧ Recovers e t f v :=
    fun f text encodes => recovers_of_encodes encodes
  obtain ⟨d, found, done⟩ := layout.record_of_lists lists (fun f _ => field?_name f) Field.nodup_all
    takes (fun text valid => valid.elim fun _ => Valid.skips) perm blanks
  obtain ⟨m, finished, right⟩ := ofDraft_of_recovers fun f => found f (Field.mem_all f)
  refine ⟨m, (ofBytes_eq_ok_iff front).mpr ⟨before post [], ?_, ?_⟩, right⟩
  · exact done finished (before post [])
  · exact Json.skipSpace_blanks back []

/-- An object that is read as a message names each field just once. -/
theorem count_of_ofBytes {m : Message} {names : List String} (blanks : Blanks gap)
    (front : Blanks pre) (named : List.Forall₂ Entry.Names entries names)
    (read : ofBytes (Text.utf8 (pre ++ (Json.objectText gap entries ++ post))) = .ok m) (f : Field) :
    names.count f.name = 1 := by
  obtain ⟨left, read, -⟩ := (ofBytes_eq_ok_iff front).mp read
  exact Json.Layout.count_of_record (readField_passed (Json.nestingLimit - 1)) named blanks read
    (field?_name f) fun d done => by rw [draft_of_ofDraft done f]; rfl

end

/-- For every row and time of publication: a text that lists the eleven fields with what the row's
message has for them is read as a message of the same event, whatever other members it has, with the
dates as clocks show them; an object that lacks a field, or has one twice, is not read at all. -/
theorem tolerates_order_and_additions (row : OutboxEvent) (publishedAt : Instant)
    (entries : List Entry) (text : List Char) (object : IsObject entries text) :
    (∀ listed : List Field,
      Lists Field.all Field.name (Encodes row.event publishedAt) (fun value => ∃ depth, Valid depth value)
        entries listed → listed.Perm Field.all →
      ∃ m, ofBytes (Text.utf8 text) = .ok m ∧ m.payload = .ok row.event.payload ∧
        (∀ f, f ≠ .eventData →
          m.fieldValue f = (ofEvent row.event publishedAt).shown.fieldValue f) ∧
        ((∀ f, f ≠ .eventData → m.fieldValue f = (ofEvent row.event publishedAt).fieldValue f) ↔
          row.event.date.OnClock ∧ publishedAt.OnClock)) ∧
    ∀ names : List String,
      List.Forall₂ (fun entry name => Spells name entry.name ∧ ∃ depth, Valid depth entry.value)
        entries names →
      (∃ f : Field, names.count f.name ≠ 1) → ∃ fault, ofBytes (Text.utf8 text) = .error fault := by
  obtain ⟨gap, blanks, pre, post, front, back, rfl⟩ := object
  constructor
  · intro listed lists perm
    obtain ⟨m, read, payload, fields⟩ := ofBytes_of_lists blanks front back lists perm
    refine ⟨m, read, payload, fields, ?_⟩
    have same : (∀ f, f ≠ .eventData →
        m.fieldValue f = (ofEvent row.event publishedAt).fieldValue f) ↔
          ∀ f, f ≠ .eventData → (ofEvent row.event publishedAt).shown.fieldValue f =
            (ofEvent row.event publishedAt).fieldValue f :=
      forall₂_congr fun f plain => by rw [fields f plain]
    exact same.trans fieldValue_shown_iff
  · rintro names named ⟨f, notOnce⟩
    cases read : ofBytes (Text.utf8 (pre ++ (Json.objectText gap entries ++ post))) with
    | error fault => exact ⟨fault, rfl⟩
    | ok m =>
        have named : List.Forall₂ Entry.Names entries names :=
          named.imp fun entry name here => ⟨here.1, here.2.elim fun _ => Valid.skips⟩
        exact absurd (count_of_ofBytes blanks front named read f) notOnce

/-- A member that no message and no payload has, with an escape in its name. -/
def sampleAddition : Entry :=
  ⟨" \"\\u006eote\" ".toList, " [1, \x7b\"amount\": [null, -2.5e3]\x7d] ".toList⟩

def sampleData : List Char :=
  Json.objectText [] (sampleAddition :: samplePayload.texts.reverse.map fun t =>
    Json.written (t.1, Json.renderString t.2))

/-- The fields of a sample row's message from the last to the first, behind an addition. -/
def sampleEntries (date : Instant) : List Entry :=
  sampleAddition :: Field.all.reverse.map fun f => Json.written (f.name,
    if f = .eventData then sampleData
    else (ofEvent (sampleRow date).event (.ofUnixMillis 0)).fieldText f)

def sampleText (date : Instant) : List Char :=
  Json.objectText ['\n'] (sampleEntries date)

theorem spells_sampleAddition : Spells "note" sampleAddition.name :=
  ⟨"\\u006eote\"".toList, ⟨[' '], [' '], by decide, by decide, by decide⟩, by decide +kernel⟩

theorem valid_sampleAddition : Valid 3 sampleAddition.value := by
  decide +kernel

theorem isObject_sampleText (date : Instant) : IsObject (sampleEntries date) (sampleText date) :=
  ⟨['\n'], by decide, .self _⟩

theorem encodes_sampleData : samplePayload.Encodes (Json.nestingLimit - 2) sampleData := by
  refine ⟨_, samplePayload.texts.reverse, ⟨[], .nil, .self _⟩, ?_, List.reverse_perm _⟩
  refine .other spells_sampleAddition (by decide +kernel) (by decide +kernel) ?_
  exact Json.lists_written (fun t : String × String => Json.spells_renderString t.2)
    fun t member => List.mem_reverse.mp member

theorem lists_sampleEntries (date : Instant) :
    Lists Field.all Field.name (Encodes (sampleRow date).event (.ofUnixMillis 0))
      (fun value => ∃ depth, Valid depth value) (sampleEntries date) Field.all.reverse := by
  refine .other spells_sampleAddition (by decide) ⟨3, valid_sampleAddition⟩ ?_
  refine Json.lists_written (fun f => ?_) fun f _ => Field.mem_all f
  by_cases data : f = .eventData
  · subst data
    exact encodes_sampleData
  · rw [if_neg data]
    exact encodes_fieldText (sampleRow date).event (.ofUnixMillis 0) f

/-- The fields in reverse, with additions on both levels; and an amount that comes twice. -/
theorem tolerates_order_and_additions_of_sample :
    (∃ m, ofBytes (Text.utf8 (sampleText (.ofUnixMillis 0))) = .ok m ∧
      m.payload = .ok samplePayload ∧
      ∀ f, f ≠ .eventData → m.fieldValue f =
        (ofEvent (sampleRow (.ofUnixMillis 0)).event (.ofUnixMillis 0)).fieldValue f) ∧
    ∃ fault, ofBytes (Text.utf8 (Json.objectText []
      [Json.written ("amount", ['5']), Json.written ("amount", ['5'])])) = .error fault := by
  have amount : Spells "amount" (Json.renderString "amount") ∧ ∃ depth, Valid depth ['5'] :=
    ⟨Json.spells_renderString "amount", 0, by decide +kernel⟩
  constructor
  · obtain ⟨m, read, payload, -, same⟩ := (tolerates_order_and_additions
      (sampleRow (.ofUnixMillis 0)) (.ofUnixMillis 0) _ _ (isObject_sampleText _)).1 _
      (lists_sampleEntries _) (List.reverse_perm _)
    have onClock := Instant.onClock_ofUnixMillis 0
    exact ⟨m, read, payload, same.mpr ⟨onClock, onClock⟩⟩
  · exact (tolerates_order_and_additions (sampleRow (.ofUnixMillis 0)) (.ofUnixMillis 0) _ _
      ⟨[], .nil, .self _⟩).2 ["amount", "amount"] (.cons amount (.cons amount .nil))
      ⟨.amount, by decide⟩

/-- The same text with a date in a leap second within a minute is read as dated in the second behind
it. -/
theorem stray_leap_second_read_later :
    IsObject (sampleEntries strayLeapSecond) (sampleText strayLeapSecond) ∧
      Lists Field.all Field.name (Encodes (sampleRow strayLeapSecond).event (.ofUnixMillis 0))
        (fun value => ∃ depth, Valid depth value) (sampleEntries strayLeapSecond)
        Field.all.reverse ∧
      ∃ m, ofBytes (Text.utf8 (sampleText strayLeapSecond)) = .ok m ∧
        m.date ≠ (ofEvent (sampleRow strayLeapSecond).event (.ofUnixMillis 0)).date := by
  refine ⟨isObject_sampleText _, lists_sampleEntries _, ?_⟩
  obtain ⟨m, read, -, fields⟩ := ofBytes_of_lists (by decide : Blanks ['\n']) .nil .nil
    (lists_sampleEntries strayLeapSecond) (List.reverse_perm _)
  rw [List.nil_append, List.append_nil] at read
  refine ⟨m, read, ?_⟩
  have date : m.date = strayLeapSecond.shown := fields .date (by decide)
  rw [date]
  exact fun same => absurd (Instant.shown_eq_self_iff.mp same (by decide)) (by decide)

end VaultTransfers.Message
