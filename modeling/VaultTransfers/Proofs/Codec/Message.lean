import VaultTransfers.Proofs.Codec.Date
import VaultTransfers.Proofs.Codec.Payload

/-!
The message of an event survives its travel over the bus: what is read from the
bytes is what was written, for every event and every time of publication, and the
message that was read tells all that the row's event did. Dates travel as clocks
show them, so that a leap second within a minute arrives as the second behind it.
-/

namespace VaultTransfers.Message

def fieldValue (m : Message) : (f : Field) → f.Value
  | .kind => m.kind
  | .txHash => m.txHash
  | .blockNumber => m.blockNumber
  | .logIndex => m.logIndex
  | .date => m.date
  | .wallet => m.wallet
  | .eventData => m.eventData
  | .amount => m.amount
  | .fromAsset => m.fromAsset
  | .toAsset => m.toAsset
  | .publishedAt => m.publishedAt

/-- The message with its dates as clocks show them. -/
def shown (m : Message) : Message :=
  { m with date := m.date.shown, publishedAt := m.publishedAt.shown }

theorem shown_eq_self_iff {m : Message} :
    m.shown = m ↔ m.date.OnClock ∧ m.publishedAt.OnClock := by
  rw [← Instant.shown_eq_self_iff, ← Instant.shown_eq_self_iff]
  constructor
  · intro same
    exact ⟨congrArg Message.date same, congrArg Message.publishedAt same⟩
  · rintro ⟨date, publishedAt⟩
    rw [shown, date, publishedAt]

theorem shown_ofEvent {e : VaultEvent} (onClock : e.date.OnClock) (t : Instant) :
    (ofEvent e t).shown = ofEvent e t.shown := by
  have date : (ofEvent e t).date.shown = e.date := Instant.shown_of_onClock onClock
  rw [shown, date]
  rfl

/-- The text is what a message of the event has for a field: strings may have any of their characters
escaped, the event data may have their members in any order and others among them, and any blanks
may stand between the words. -/
def Encodes (e : VaultEvent) (publishedAt : Instant) : Field → List Char → Prop
  | .kind => Json.Spells e.kind.text
  | .txHash => Json.Spells e.txHash
  | .blockNumber => Json.Padded (Nat.toDigits 10 e.blockNumber.toNat)
  | .logIndex => Json.Padded (Nat.toDigits 10 e.logIndex.toNat)
  | .date => Json.Spells e.date.toText
  | .wallet => Json.Spells e.wallet
  | .eventData => e.payload.Encodes (Json.nestingLimit - 2)
  | .amount => Json.Spells e.amount
  | .fromAsset => Json.Spells e.fromAsset
  | .toAsset => Json.Spells e.toAsset
  | .publishedAt => Json.Spells publishedAt.toText

theorem encodes_fieldText (e : VaultEvent) (t : Instant) (f : Field) :
    Encodes e t f ((ofEvent e t).fieldText f) := by
  cases f with
  | blockNumber | logIndex => exact .self _
  | eventData => exact e.payload.encodes_render _
  | _ => exact Json.spells_renderString _

theorem takes_date {t : Instant} {text : List Char} (spells : Json.Spells t.toText text) :
    Json.Takes (Json.leaf Json.fitDate) text t.shown :=
  Json.takes_of_spells spells (by simp only [Json.fitDate, Instant.ofText_toText])

theorem takes_kind (depth : Nat) {kind : EventKind} {text : List Char}
    (spells : Json.Spells kind.text text) : Json.Takes (readKind depth) text kind := by
  obtain ⟨gap, blanks, short, body⟩ := spells.body
  refine ⟨gap, blanks, short, fun s rest stop => ?_⟩
  obtain ⟨behind, spaced, read⟩ := body s rest stop.endsNumber
  have fits : fitKindName (.str (String.ofList kind.text.toList)) = .ok kind := by
    simp only [String.ofList_toList, fitKindName, fitKind, EventKind.ofText_text]
  unfold readKind
  rw [spaced]
  exact Json.leaf_of_glimpse (Json.glimpse_of_shows rfl (.string read)) fits

/-- The encoded values are read back, those of the event data apart. -/
theorem takes_of_encodes {e : VaultEvent} {t : Instant} (depth : Nat) {f : Field} {text : List Char}
    (encodes : Encodes e t f text) (plain : f ≠ .eventData) :
    Json.Takes (readField depth f) text ((ofEvent e t).shown.fieldValue f) := by
  cases f with
  | kind => exact takes_kind depth encodes
  | blockNumber | logIndex => exact Json.takes_of_digits encodes
  | date | publishedAt => exact takes_date encodes
  | eventData => exact absurd rfl plain
  | txHash | wallet | amount | fromAsset | toAsset => exact Json.takes_of_spells encodes rfl

theorem takes_field (e : VaultEvent) (t : Instant) (depth : Nat) (f : Field) :
    Json.Takes (readField (depth + 1) f) ((ofEvent e t).fieldText f)
      ((ofEvent e t).shown.fieldValue f) := by
  by_cases plain : f = .eventData
  · subst plain
    exact ⟨[], .nil, Nat.zero_le _, fun s rest _ => e.payload.value_render depth (s :: rest)⟩
  · exact takes_of_encodes (depth + 1) (encodes_fieldText e t f) plain

theorem Field.mem_all (f : Field) : f ∈ Field.all := by
  cases f <;> decide

theorem Field.nodup_all : Field.all.Nodup := by
  decide

theorem field?_name (f : Field) : layout.field? f.name = some f := by
  cases f <;> rfl

theorem record_render (e : VaultEvent) (t : Instant) (rest : Json.Input) :
    layout.record Json.nestingLimit readField ofDraft (Json.before (ofEvent e t).render rest) =
      .ok ((ofEvent e t).shown, rest) := by
  have finishes : ofDraft (fun f => some ((ofEvent e t).shown.fieldValue f)) =
      .ok (ofEvent e t).shown := rfl
  exact layout.record_renderObject Field.mem_all (fun f _ => field?_name f) Field.nodup_all
    (takes_field e t 125) finishes rest

/-- What is read from the bytes of a published event is its message, with the dates as clocks show
them. -/
theorem ofBytes_toBytes (e : VaultEvent) (t : Instant) :
    ofBytes (ofEvent e t).toBytes = .ok (ofEvent e t).shown := by
  have symbols : Text.symbols (ofEvent e t).toBytes = Json.before (ofEvent e t).render [] := by
    rw [toBytes, Text.symbols_utf8, Json.before, List.append_nil]
  have read := record_render e t []
  unfold ofBytes Json.whole
  rw [symbols, read]
  rfl

theorem ofBytes_toBytes_of_onClock {e : VaultEvent} {t : Instant} (date : e.date.OnClock)
    (published : t.OnClock) : ofBytes (ofEvent e t).toBytes = .ok (ofEvent e t) := by
  rw [ofBytes_toBytes, shown_eq_self_iff.mpr ⟨date, published⟩]

/-- A row goes over the bus with its payload, its kind, its key, its position and its amount
unchanged, and with its dates as clocks show them: the message arrives as it left just if neither
date is in a leap second within a minute. -/
theorem row_arrives (row : OutboxEvent) (publishedAt : Instant) :
    ∃ m, ofBytes (ofEvent row.event publishedAt).toBytes = .ok m ∧
      m = (ofEvent row.event publishedAt).shown ∧
      (m = ofEvent row.event publishedAt ↔ row.event.date.OnClock ∧ publishedAt.OnClock) ∧
      m.payload = .ok row.event.payload ∧
      m.kind = row.event.kind ∧ m.key = row.event.key ∧ m.position = row.event.position ∧
      m.amount = row.event.amount := by
  have arrives := ofBytes_toBytes row.event publishedAt
  have payload : (ofEvent row.event publishedAt).shown.payload = .ok row.event.payload :=
    payload_ofEvent row.event publishedAt
  exact ⟨_, arrives, rfl, shown_eq_self_iff, payload, rfl, rfl, rfl, rfl⟩

def samplePayload : Payload :=
  .deposit ⟨"1", "w", "token", "5", "5", "0", "0"⟩

/-- A deposit that is held, of any date. -/
def sampleRow (date : Instant) : OutboxEvent where
  event :=
    { txHash := "0x01"
      logIndex := 7
      blockNumber := 12
      date
      wallet := "w"
      amount := "5"
      fromAsset := "token"
      toAsset := "share"
      payload := samplePayload }
  status := .processing
  createdAt := .ofUnixMillis 0

/-- A leap second behind 23:57:10 of the last day of 2016. -/
def strayLeapSecond : Instant :=
  ⟨1483228630, 1333333333, by decide, by decide, by decide⟩

/-- What arrives is dated 23:57:11 and a third. -/
theorem stray_leap_second_arrives_later :
    (∃ m, ofBytes (ofEvent (sampleRow strayLeapSecond).event (.ofUnixMillis 0)).toBytes = .ok m ∧
      m.date.second = 1483228631 ∧ m.date.nanos = 333333333) ∧
    ofBytes (ofEvent (sampleRow strayLeapSecond).event (.ofUnixMillis 0)).toBytes ≠
      .ok (ofEvent (sampleRow strayLeapSecond).event (.ofUnixMillis 0)) := by
  rw [ofBytes_toBytes]
  refine ⟨⟨_, rfl, by decide, by decide⟩, fun arrives => ?_⟩
  have onClock := (shown_eq_self_iff.mp (Except.ok.inj arrives)).1
  exact absurd (onClock (by decide)) (by decide)

end VaultTransfers.Message
