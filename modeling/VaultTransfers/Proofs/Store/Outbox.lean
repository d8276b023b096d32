import Mathlib.Data.List.Nodup
import VaultTransfers.Proofs.Store.Rows
import VaultTransfers.Proofs.Transfer.Discovery
import VaultTransfers.Store.Outbox

/-!
What the operations on an outbox keep and what they change. A row consists of an
entry, which is for good, and of its delivery, which is not; only a record adds
entries. In an outbox whose rows stand in the order of discovery, a claim takes
the first rows that it may take.
-/

namespace VaultTransfers

namespace OutboxEvent

/-- The event and its time of recording, without its delivery. -/
def entry (a : OutboxEvent) : OutboxEvent :=
  { a with status := .unsent }

theorem foundBefore_entry (a b : OutboxEvent) : a.entry.foundBefore b.entry = a.foundBefore b := rfl

end OutboxEvent

namespace Outbox

def Row.entry (r : Row) : OutboxEvent :=
  r.toOutboxEvent.entry

def entries (box : Outbox) : List OutboxEvent :=
  box.rows.map Row.entry

def events (box : Outbox) : List VaultEvent :=
  box.rows.map (·.event)

/-- Each row has the time of recording that its place gives it. -/
def Timed (box : Outbox) : Prop :=
  box.entries.map (·.createdAt) = (List.range box.entries.length).map recordedAt

/-- The other outbox has rows behind those of this one, none of which is sent. -/
def Extends (box other : Outbox) : Prop :=
  ∃ new, other.rows = box.rows ++ new ∧ ∀ r ∈ new, r.status = .unsent

/-- Rows that can stand behind those of the outbox: they wait, for events as stated, and each has a
key that no other has. -/
structure Adds (box : Outbox) (fits : VaultEvent → Prop) (new : List Row) : Prop where
  waiting : ∀ r ∈ new, r.status = .unsent ∧ r.claimedAt = none
  fits : ∀ r ∈ new, fits r.event
  keys : (new.map (·.event.key)).Nodup
  apart : ∀ r ∈ new, ∀ o ∈ box.rows, o.event.key ≠ r.event.key

/-- The rows have different keys and stand in the order of their discovery. -/
structure Ordered (box : Outbox) : Prop where
  keys : (box.entries.map (·.event.key)).Nodup
  found : box.entries.Pairwise fun a b => a.foundBefore b = true

section

variable {box : Outbox} {r : Row}

theorem mem_entries (member : r ∈ box.rows) : r.entry ∈ box.entries :=
  List.mem_map_of_mem member

theorem Ordered.of_entries {other : Outbox} (ordered : box.Ordered)
    (same : other.entries = box.entries) : other.Ordered :=
  ⟨same ▸ ordered.keys, same ▸ ordered.found⟩

theorem Timed.of_entries {other : Outbox} (timed : box.Timed)
    (same : other.entries = box.entries) : other.Timed := by
  rw [Timed, same]
  exact timed

theorem events_of_entries {other : Outbox} (same : other.entries = box.entries) :
    other.events = box.events := by
  have events := congrArg (List.map (·.event)) same
  rw [entries, entries, List.map_map, List.map_map] at events
  exact events

theorem Extends.events {other : Outbox} (grown : box.Extends other) :
    box.events <+: other.events := by
  obtain ⟨new, rows, -⟩ := grown
  rw [Outbox.events, Outbox.events, rows, List.map_append]
  exact List.prefix_append _ _

theorem Ordered.pairwise (ordered : box.Ordered) :
    box.rows.Pairwise fun a b => a.toOutboxEvent.foundBefore b.toOutboxEvent = true :=
  List.pairwise_map.mp ordered.found

theorem entries_map {f : Row → Row} (kept : ∀ r, (f r).entry = r.entry) (box : Outbox) :
    Outbox.entries ⟨box.rows.map f⟩ = box.entries := by
  rw [entries, List.map_map]
  exact List.map_congr_left fun r _ => kept r

theorem entries_sweep (limit : Moment) (box : Outbox) : (box.sweep limit).entries = box.entries := by
  refine entries_map ?_ box
  intro r
  split
  · rfl
  · rfl

theorem entries_release (ref : RowRef) (status : OutboxStatus) (box : Outbox) :
    (box.release ref status).entries = box.entries := by
  rw [entries, release, Store.map_changeFirst]
  · rfl
  · intro r _
    rfl

theorem entries_claim (limit : Int) (now : Moment) (box : Outbox) :
    (box.claim limit now).2.entries = box.entries := by
  refine entries_map ?_ box
  intro r
  split
  · rfl
  · rfl

theorem entries_answer {c : Call} (other : ∀ e, c ≠ .record e) (now : Moment) (box : Outbox) :
    (answer now c box).2.entries = box.entries := by
  cases c with
  | record e => exact absurd rfl (other e)
  | claim limit => exact entries_claim limit now box
  | markSent ref => exact entries_release ref .sent box
  | markFailed ref => exact entries_release ref .unsent box
  | reclaim olderThan => exact entries_sweep _ box

theorem sent_of_mem_release {ref : RowRef} {status : OutboxStatus}
    (member : r ∈ (box.release ref status).rows) (sent : r.status = .sent) :
    r ∈ box.rows ∨ status = .sent ∧ r.event.ref = ref := by
  rcases Store.mem_of_mem_changeFirst member with kept | ⟨held, _, isHeld, rfl⟩
  · exact .inl kept
  · refine .inr ⟨sent, ?_⟩
    rw [Row.isHeldAs, Bool.and_eq_true, decide_eq_true_eq] at isHeld
    exact isHeld.1

theorem sent_of_mem_answer {now : Moment} {c : Call} (other : ∀ e, c ≠ .record e)
    (member : r ∈ (answer now c box).2.rows) (sent : r.status = .sent) :
    r ∈ box.rows ∨ c = .markSent r.event.ref := by
  cases c with
  | record e => exact absurd rfl (other e)
  | claim limit =>
      obtain ⟨before, among, rfl⟩ := List.mem_map.mp member
      split at sent
      · simp [Row.hold] at sent
      · rename_i untaken
        rw [if_neg untaken]
        exact .inl among
  | markSent ref =>
      rcases sent_of_mem_release member sent with kept | ⟨_, rfl⟩
      · exact .inl kept
      · exact .inr rfl
  | markFailed ref =>
      rcases sent_of_mem_release member sent with kept | ⟨unsent, _⟩
      · exact .inl kept
      · simp at unsent
  | reclaim olderThan =>
      obtain ⟨before, among, rfl⟩ := List.mem_map.mp member
      split at sent
      · simp [Row.letGo] at sent
      · rename_i fresh
        rw [if_neg fresh]
        exact .inl among

theorem origin_of_mem_answer {now : Moment} {c : Call} (other : ∀ e, c ≠ .record e)
    (member : r ∈ (answer now c box).2.rows) : ∃ before ∈ box.rows, before.entry = r.entry := by
  have among := mem_entries member
  rw [entries_answer other] at among
  exact List.mem_map.mp among

theorem Ordered.eq_of_key {a : Row} (ordered : box.Ordered) (a_mem : a ∈ box.rows)
    (r_mem : r ∈ box.rows) (same : a.event.key = r.event.key) : a = r := by
  have keys := ordered.keys
  rw [entries, List.map_map] at keys
  exact List.inj_on_of_nodup_map keys a_mem r_mem same

theorem Ordered.nodup_keys (ordered : box.Ordered) : (box.events.map VaultEvent.key).Nodup := by
  have keys := ordered.keys
  rw [entries, List.map_map] at keys
  rw [events, List.map_map]
  exact keys

/-- Under different keys, letting a held row go changes that row and no other. -/
theorem rows_release (keys : (box.events.map VaultEvent.key).Nodup) (r_mem : r ∈ box.rows)
    (held : r.status = .processing) (status : OutboxStatus) :
    (box.release r.event.ref status).rows =
      box.rows.map fun a => if a.event = r.event then a.letGo status else a := by
  rw [events, List.map_map] at keys
  have key_eq {a : Row} (heldAs : a.isHeldAs r.event.ref = true) : a.event.key = r.event.key := by
    rw [Row.isHeldAs, Bool.and_eq_true, decide_eq_true_eq] at heldAs
    exact congrArg RowRef.key heldAs.1
  have single : box.rows.Pairwise fun a b =>
      a.isHeldAs r.event.ref = true → b.isHeldAs r.event.ref = false := by
    refine (List.pairwise_map.mp keys).imp ?_
    intro a b apart first
    rw [Bool.eq_false_iff]
    exact fun second => apart ((key_eq first).trans (key_eq second).symm)
  rw [release, Store.changeFirst_eq_map single]
  refine List.map_congr_left fun a member => if_congr ?_ rfl rfl
  constructor
  · intro heldAs
    rw [List.inj_on_of_nodup_map keys member r_mem (key_eq heldAs)]
  · intro same
    obtain rfl := List.inj_on_of_nodup_map keys member r_mem (congrArg VaultEvent.key same)
    simp [Row.isHeldAs, Row.isHeld, held]

/-- A held row that is let go stands in its place as it is let go. -/
theorem Ordered.eq_letGo_of_mem_release (ordered : box.Ordered) {a : Row} {status : OutboxStatus}
    (r_mem : r ∈ box.rows) (held : r.status = .processing)
    (member : a ∈ (box.release r.event.ref status).rows) (same : a.event.key = r.event.key) :
    a = r.letGo status := by
  rw [rows_release ordered.nodup_keys r_mem held] at member
  obtain ⟨b, b_mem, rfl⟩ := List.mem_map.mp member
  have key : b.event.key = r.event.key := by
    split at same
    · exact same
    · exact same
  obtain rfl := ordered.eq_of_key b_mem r_mem key
  rw [if_pos rfl]

theorem mem_release_of_ne {ref : RowRef} {status : OutboxStatus} (other : r.event.key ≠ ref.key)
    (member : r ∈ box.rows) : r ∈ (box.release ref status).rows := by
  apply Store.mem_changeFirst_of_not member
  have unfit : r.event.ref ≠ ref := fun same => other (congrArg RowRef.key same)
  simp [Row.isHeldAs, unfit]

theorem mem_of_mem_release {ref : RowRef} {status : OutboxStatus} (other : r.event.key ≠ ref.key)
    (member : r ∈ (box.release ref status).rows) : r ∈ box.rows := by
  rcases Store.mem_of_mem_changeFirst member with kept | ⟨held, -, heldAs, rfl⟩
  · exact kept
  · rw [Row.isHeldAs, Bool.and_eq_true, decide_eq_true_eq] at heldAs
    exact absurd (congrArg RowRef.key heldAs.1) other

theorem claimable_of_mem_claimed {limit : Int} {t : OutboxEvent} (member : t ∈ box.claimed limit) :
    ∃ r ∈ box.rows, r.toOutboxEvent = t ∧ box.isClaimable r = true := by
  have among := List.mem_mergeSort.mp (List.mem_of_mem_take member)
  obtain ⟨r, claimable, rfl⟩ := List.mem_map.mp among
  obtain ⟨r_mem, fits⟩ := List.mem_filter.mp claimable
  exact ⟨r, r_mem, rfl, fits⟩

theorem nodup_keys_claimed (keys : (box.events.map VaultEvent.key).Nodup) (limit : Int) :
    ((box.claimed limit).map (·.event.key)).Nodup := by
  have waiting : (((box.rows.filter box.isClaimable).map Row.toOutboxEvent).map
      (·.event.key)).Nodup := by
    rw [events, List.map_map] at keys
    rw [List.map_map]
    exact keys.sublist (List.filter_sublist.map _)
  have sorted := (List.mergeSort_perm ((box.rows.filter box.isClaimable).map Row.toOutboxEvent)
    fun a b => !b.foundBefore a).map (·.event.key)
  exact (sorted.nodup_iff.mpr waiting).sublist ((List.take_sublist _ _).map _)

/-- Under different keys, a claim holds the rows that it takes and changes no other. -/
theorem rows_claim (keys : (box.events.map VaultEvent.key).Nodup) (limit : Int) (now : Moment) :
    (box.claim limit now).2.rows = box.rows.map fun r =>
      if r.event ∈ (box.claimed limit).map (·.event) then r.hold now else r := by
  rw [events, List.map_map] at keys
  refine List.map_congr_left fun r member => if_congr ?_ rfl rfl
  rw [List.any_eq_true, List.mem_map]
  constructor
  · rintro ⟨t, taken, same⟩
    obtain ⟨a, a_mem, rfl, -⟩ := claimable_of_mem_claimed taken
    obtain rfl := List.inj_on_of_nodup_map keys a_mem member (of_decide_eq_true same)
    exact ⟨_, taken, rfl⟩
  · rintro ⟨t, taken, same⟩
    exact ⟨t, taken, by rw [same, decide_eq_true_eq]⟩

theorem nodup_events_claimed (keys : (box.events.map VaultEvent.key).Nodup) (limit : Int) :
    ((box.claimed limit).map (·.event)).Nodup := by
  have distinct : (((box.claimed limit).map (·.event)).map VaultEvent.key).Nodup := by
    rw [List.map_map]
    exact nodup_keys_claimed keys limit
  exact distinct.of_map _

theorem events_claim (limit : Int) (now : Moment) (box : Outbox) :
    (box.claim limit now).1.map (·.event) = (box.claimed limit).map (·.event) := by
  rw [claim, List.map_map]
  rfl

/-- A row that is handed out is held. -/
theorem held_of_mem_claim {limit : Int} {now : Moment} {t : OutboxEvent}
    (member : t ∈ (box.claim limit now).1) :
    ∃ r ∈ (box.claim limit now).2.rows, r.entry = t.entry ∧ r.status = .processing := by
  obtain ⟨t, taken, rfl⟩ := List.mem_map.mp member
  obtain ⟨r, r_mem, rfl, -⟩ := claimable_of_mem_claimed taken
  refine ⟨r.hold now, List.mem_map.mpr ⟨r, r_mem, if_pos ?_⟩, rfl, rfl⟩
  exact List.any_eq_true.mpr ⟨r.toOutboxEvent, taken, by simp⟩

theorem held_event_of_mem_claim {limit : Int} {now : Moment} {t : OutboxEvent}
    (member : t ∈ (box.claim limit now).1) :
    ∃ r ∈ (box.claim limit now).2.rows, r.event = t.event ∧ r.status = .processing := by
  obtain ⟨r, r_mem, entry, held⟩ := held_of_mem_claim member
  exact ⟨r, r_mem, congrArg (·.event) entry, held⟩

theorem isUnsent_of_isClaimable (claimable : box.isClaimable r = true) : r.status = .unsent := by
  rw [isClaimable, Bool.and_eq_true, Row.isUnsent, decide_eq_true_eq] at claimable
  exact claimable.1

theorem Ordered.mem_answer_of_sent (ordered : box.Ordered) (now : Moment) {c : Call}
    (other : ∀ e, c ≠ .record e) (member : r ∈ box.rows) (sent : r.status = .sent) :
    r ∈ (answer now c box).2.rows := by
  have spared (ref : RowRef) : r.isHeldAs ref = false := by
    simp [Row.isHeldAs, Row.isHeld, sent]
  cases c with
  | record e => exact absurd rfl (other e)
  | claim limit =>
      refine List.mem_map.mpr ⟨r, member, if_neg ?_⟩
      intro taken
      obtain ⟨t, among, same⟩ := List.any_eq_true.mp taken
      obtain ⟨a, a_mem, rfl, claimable⟩ := claimable_of_mem_claimed among
      obtain rfl := ordered.eq_of_key a_mem member (of_decide_eq_true same)
      rw [isUnsent_of_isClaimable claimable] at sent
      cases sent
  | markSent ref => exact Store.mem_changeFirst_of_not member (spared ref)
  | markFailed ref => exact Store.mem_changeFirst_of_not member (spared ref)
  | reclaim olderThan =>
      refine List.mem_map.mpr ⟨r, member, if_neg ?_⟩
      simp [Row.isStale, Row.isHeld, sent]

theorem Ordered.claimed_eq (ordered : box.Ordered) (limit : Int) :
    box.claimed limit =
      ((box.rows.filter box.isClaimable).map Row.toOutboxEvent).take limit.toNat := by
  have sorted : ((box.rows.filter box.isClaimable).map Row.toOutboxEvent).Pairwise
      fun a b => (!b.foundBefore a) = true := by
    rw [List.pairwise_map]
    refine (ordered.pairwise.sublist List.filter_sublist).imp ?_
    intro a b found
    rw [OutboxEvent.not_foundBefore_of_foundBefore found]
    rfl
  rw [claimed, OutboxEvent.inOrder, List.mergeSort_of_pairwise sorted]

/-- Ahead of a claimed row, each row of its wallet is claimed with it or sent. -/
theorem Ordered.sent_or_claimed_before (ordered : box.Ordered) {limit : Int} {now : Moment}
    {before after : List OutboxEvent} {b : OutboxEvent}
    (split : (box.claim limit now).1 = before ++ b :: after) :
    b.entry ∈ box.entries ∧
      ∀ r ∈ box.rows, r.event.wallet = b.event.wallet → r.toOutboxEvent.foundBefore b = true →
        r.status = .sent ∨ ∃ c ∈ before, c.entry = r.entry := by
  have taken : (box.claimed limit).map (fun t => { t with status := .processing }) =
      before ++ b :: after := split
  obtain ⟨first, rest, claimed, rfl, later⟩ := List.map_eq_append_iff.mp taken
  obtain ⟨t, last, rfl, rfl, -⟩ := List.map_eq_cons_iff.mp later
  rw [ordered.claimed_eq] at claimed
  have whole := List.take_append_drop limit.toNat
    ((box.rows.filter box.isClaimable).map Row.toOutboxEvent)
  rw [claimed, List.append_assoc, List.cons_append] at whole
  have t_mem : t ∈ (box.rows.filter box.isClaimable).map Row.toOutboxEvent := by
    rw [← whole]
    simp
  obtain ⟨row, among, rfl⟩ := List.mem_map.mp t_mem
  obtain ⟨row_mem, claimable⟩ := List.mem_filter.mp among
  rw [isClaimable, Bool.and_eq_true, Bool.not_eq_true'] at claimable
  refine ⟨mem_entries row_mem, ?_⟩
  intro r member wallet found
  have same : r.event.wallet = row.event.wallet := wallet
  cases status : r.status with
  | sent => exact .inl rfl
  | processing =>
      -- a held row of the wallet would have kept the claim from the wallet
      have held : box.holds row.event.wallet = true := by
        refine List.any_eq_true.mpr ⟨r, member, ?_⟩
        simp [Row.isHeld, status, same]
      rw [held] at claimable
      simp at claimable
  | unsent =>
      have r_claimable : box.isClaimable r = true := by
        rw [isClaimable, same, claimable.2]
        simp [Row.isUnsent, status]
      have r_mem : r.toOutboxEvent ∈ (box.rows.filter box.isClaimable).map Row.toOutboxEvent :=
        List.mem_map_of_mem (List.mem_filter.mpr ⟨member, r_claimable⟩)
      have sorted : ((box.rows.filter box.isClaimable).map Row.toOutboxEvent).Pairwise
          fun a b => a.foundBefore b = true :=
        List.pairwise_map.mpr (ordered.pairwise.sublist List.filter_sublist)
      rw [← whole] at r_mem sorted
      have notBehind := OutboxEvent.not_foundBefore_of_foundBefore found
      rcases List.mem_append.mp r_mem with ahead | behind
      · exact .inr ⟨_, List.mem_map_of_mem ahead, rfl⟩
      · rcases List.mem_cons.mp behind with itself | behind
        · have always : r.toOutboxEvent.foundBefore row.toOutboxEvent = true := found
          rw [← itself, OutboxEvent.not_foundBefore_self] at always
          simp at always
        · have order := (List.pairwise_append.mp sorted).2.1
          have late := (List.pairwise_cons.mp order).1 _ behind
          have never : row.toOutboxEvent.foundBefore r.toOutboxEvent = false := notBehind
          rw [late] at never
          simp at never

end

/-- How many rows have a time of recording of their own; behind them the clock has no instant. -/
def capacity : Nat := 8208566876799000

theorem recordedAt_before {m n : Nat} (earlier : m < n) (room : n < capacity) :
    (recordedAt m).before (recordedAt n) = true := by
  rw [Instant.before_iff]
  simp only [recordedAt, Instant.ofUnixMillis, capacity] at *
  omega

/-- However many rows there are, a later one is not recorded earlier. -/
theorem recordedAt_before_or_eq {m n : Nat} (earlier : m < n) :
    (recordedAt m).before (recordedAt n) = true ∨ recordedAt m = recordedAt n := by
  rw [Instant.before_iff]
  simp only [recordedAt, Instant.ofUnixMillis, Instant.mk.injEq]
  omega

/-- Rows that were recorded in the order of the chain stand in the order of discovery. -/
theorem Timed.ordered {box : Outbox} (timed : box.Timed)
    (keys : (box.events.map VaultEvent.key).Nodup)
    (rising : box.events.Pairwise fun a b => a.position.before b.position = true) :
    box.Ordered := by
  have events : box.entries.map (·.event) = box.events := by
    rw [entries, List.map_map]
    rfl
  have times : box.entries.map (·.createdAt) =
      (List.range box.entries.length).map recordedAt := timed
  have createdAt (i : Nat) (inside : i < box.entries.length) :
      (box.entries[i]).createdAt = recordedAt i := by
    have both := congrArg (·[i]?) times
    simpa [inside] using both
  constructor
  · rw [← events, List.map_map] at keys
    exact keys
  · rw [← events, List.pairwise_map, List.pairwise_iff_getElem] at rising
    rw [List.pairwise_iff_getElem]
    intro i j first second earlier
    rw [OutboxEvent.foundBefore_iff, createdAt i first, createdAt j second]
    rcases recordedAt_before_or_eq earlier with before | same
    · exact .inl before
    · exact .inr ⟨same, rising i j first second earlier⟩

theorem Extends.refl (box : Outbox) : box.Extends box :=
  ⟨[], by simp⟩

theorem Extends.trans {a b c : Outbox} (first : a.Extends b) (second : b.Extends c) :
    a.Extends c := by
  obtain ⟨new, rows, unsent⟩ := first
  obtain ⟨newer, rows', unsent'⟩ := second
  refine ⟨new ++ newer, by rw [rows', rows, List.append_assoc], ?_⟩
  intro r member
  rcases List.mem_append.mp member with older | later
  · exact unsent r older
  · exact unsent' r later

theorem record_of_known {box : Outbox} {e : VaultEvent}
    (same : ∀ r ∈ box.rows, r.event.key = e.key → r.event = e)
    (known : ∃ r ∈ box.rows, r.event.key = e.key) : box.record e = box := by
  obtain ⟨r, member, key⟩ := known
  have found : box.rows.any (Row.hasKey e.key) = true :=
    List.any_eq_true.mpr ⟨r, member, by simp [Row.hasKey, key]⟩
  have unchanged : Store.changeFirst (Row.hasKey e.key) (fun r => { r with event := e }) box.rows =
      box.rows := by
    apply Store.changeFirst_eq_self
    intro r member hasKey
    rw [← same r member (of_decide_eq_true hasKey)]
  rw [record, Store.changeOrAdd, if_pos found, unchanged]

theorem record_of_new {box : Outbox} {e : VaultEvent}
    (new : ∀ r ∈ box.rows, r.event.key ≠ e.key) :
    box.record e = ⟨box.rows ++
      [{ event := e, status := .unsent, createdAt := recordedAt box.rows.length, claimedAt := none }]⟩
      := by
  rw [record, Store.changeOrAdd, if_neg]
  intro found
  obtain ⟨r, member, hasKey⟩ := List.any_eq_true.mp found
  exact new r member (of_decide_eq_true hasKey)

theorem entries_record_of_new {box : Outbox} {e : VaultEvent}
    (new : ∀ r ∈ box.rows, r.event.key ≠ e.key) :
    (box.record e).entries = box.entries ++ [⟨e, .unsent, recordedAt box.rows.length⟩] := by
  rw [record_of_new new, entries, List.map_append]
  rfl

theorem Timed.record_of_new {box : Outbox} {e : VaultEvent} (timed : box.Timed)
    (new : ∀ r ∈ box.rows, r.event.key ≠ e.key) : (box.record e).Timed := by
  have length : box.entries.length = box.rows.length := List.length_map _
  have times : box.entries.map (·.createdAt) =
      (List.range box.entries.length).map recordedAt := timed
  rw [Timed, entries_record_of_new new]
  simp only [List.map_append, List.length_append, List.length_singleton, times, List.range_succ,
    List.map_singleton, length]

theorem events_record_of_new {box : Outbox} {e : VaultEvent}
    (new : ∀ r ∈ box.rows, r.event.key ≠ e.key) : (box.record e).events = box.events ++ [e] := by
  rw [record_of_new new, events, List.map_append]
  rfl

/-- Behind the rows of an outbox, recording an event adds a row for it, or finds one. -/
theorem Adds.record {old box : Outbox} {fits : VaultEvent → Prop} {new : List Row} {e : VaultEvent}
    (adds : old.Adds fits new) (rows : box.rows = old.rows ++ new)
    (same : ∀ r ∈ box.rows, r.event.key = e.key → r.event = e) (fit : fits e) :
    e ∈ (box.record e).events ∧ box.events ⊆ (box.record e).events ∧
      ∃ new', (box.record e).rows = old.rows ++ new' ∧ old.Adds fits new' := by
  by_cases known : ∃ r ∈ box.rows, r.event.key = e.key
  · rw [record_of_known same known]
    obtain ⟨r, member, key⟩ := known
    exact ⟨same r member key ▸ List.mem_map_of_mem member, List.Subset.refl _, new, rows, adds⟩
  · have unknown : ∀ r ∈ box.rows, r.event.key ≠ e.key :=
      fun r member key => known ⟨r, member, key⟩
    have events := events_record_of_new unknown
    refine ⟨by simp [events], events ▸ List.subset_append_left _ _, ?_⟩
    rw [record_of_new unknown, rows, List.append_assoc]
    rw [rows] at unknown
    refine ⟨_, rfl, ?_⟩
    constructor
    · intro r member
      rcases List.mem_append.mp member with old | added
      · exact adds.waiting r old
      · rw [List.mem_singleton.mp added]
        exact ⟨rfl, rfl⟩
    · intro r member
      rcases List.mem_append.mp member with old | added
      · exact adds.fits r old
      · rw [List.mem_singleton.mp added]
        exact fit
    · rw [List.map_append, List.nodup_append]
      refine ⟨adds.keys, by simp, ?_⟩
      intro k member k' added
      obtain ⟨r, among, rfl⟩ := List.mem_map.mp member
      rw [List.map_singleton, List.mem_singleton] at added
      exact added ▸ unknown r (List.mem_append_right _ among)
    · intro r member o among
      rcases List.mem_append.mp member with old | added
      · exact adds.apart r old o among
      · rw [List.mem_singleton.mp added]
        exact unknown o (List.mem_append_left _ among)

/-- Recording events one after the other goes on where an earlier attempt may have stopped; what is
recorded stays a first part of all that there is to be recorded. -/
theorem record_next {box : Outbox} {all known rest : List VaultEvent} {e : VaultEvent}
    (keys : (all.map VaultEvent.key).Nodup) (whole : known ++ e :: rest <+: all)
    (before : known <+: box.events) (within : box.events <+: all) :
    known ++ [e] <+: (box.record e).events ∧ (box.record e).events <+: all ∧
      (box.Timed → (box.record e).Timed) ∧ box.Extends (box.record e) := by
  have next : known ++ [e] <+: all := by
    rw [List.append_cons] at whole
    exact (List.prefix_append _ _).trans whole
  rcases Nat.lt_or_ge known.length box.events.length with longer | shorter
  · -- the event is recorded already
    have known' : known ++ [e] <+: box.events :=
      List.prefix_of_prefix_length_le next within (by simp; omega)
    have among : e ∈ box.events := known'.subset (by simp)
    obtain ⟨r, member, event⟩ := List.mem_map.mp among
    have same : ∀ r ∈ box.rows, r.event.key = e.key → r.event = e := by
      intro r member key
      exact List.inj_on_of_nodup_map keys (within.subset (List.mem_map_of_mem member))
        (within.subset among) key
    rw [record_of_known same ⟨r, member, by rw [event]⟩]
    exact ⟨known', within, id, .refl box⟩
  · have equal : known = box.events := before.eq_of_length_le shorter
    subst equal
    have new : ∀ r ∈ box.rows, r.event.key ≠ e.key := by
      intro r member key
      have distinct := keys.sublist (next.sublist.map VaultEvent.key)
      rw [List.map_append, List.nodup_append] at distinct
      exact distinct.2.2 r.event.key (List.mem_map_of_mem (List.mem_map_of_mem member)) e.key
        (by simp) key
    have extends_ : box.Extends (box.record e) := by
      rw [record_of_new new]
      exact ⟨_, rfl, by simp⟩
    rw [events_record_of_new new]
    exact ⟨List.prefix_rfl, next, fun timed => timed.record_of_new new, extends_⟩

theorem Ordered.record_of_new {box : Outbox} {e : VaultEvent} (ordered : box.Ordered)
    (new : ∀ r ∈ box.rows, r.event.key ≠ e.key)
    (last : ∀ a ∈ box.entries, a.foundBefore ⟨e, .unsent, recordedAt box.rows.length⟩ = true) :
    (box.record e).Ordered := by
  have entries := entries_record_of_new new
  constructor
  · rw [entries, List.map_append, List.nodup_append]
    refine ⟨ordered.keys, by simp, ?_⟩
    intro k member k' added same
    obtain ⟨a, among, rfl⟩ := List.mem_map.mp member
    obtain ⟨r, row, rfl⟩ := List.mem_map.mp among
    rw [List.map_singleton, List.mem_singleton] at added
    exact new r row (same.trans added)
  · rw [entries, List.pairwise_append]
    refine ⟨ordered.found, by simp, ?_⟩
    intro a member b added
    rw [List.mem_singleton.mp added]
    exact last a member

end Outbox

end VaultTransfers
