import VaultTransfers.Proofs.Store.Outbox

/-!
What becomes of the rows of an outbox. Whichever operation is made on it, and
whoever makes it, a row stays in its place with its event and its time of
recording; it waits, is held, and is then sent for good or put back to wait.
-/

namespace VaultTransfers.Outbox

namespace Row

/-- What one operation may make of a row. -/
inductive Becomes (r : Row) : Row → Prop
  | same : Becomes r r
  | held (waiting : r.status = .unsent) (now : Moment) : Becomes r (r.hold now)
  | sent (held : r.status = .processing) : Becomes r (r.letGo .sent)
  | putBack (held : r.status = .processing) : Becomes r (r.letGo .unsent)

/-- The row says since when it is held, if and only if it is. -/
def IsTidy (r : Row) : Prop :=
  r.claimedAt.isSome = true ↔ r.status = .processing

/-- What is told of the row besides its event. -/
def delivery (r : Row) : OutboxStatus × Instant × Option Moment :=
  (r.status, r.createdAt, r.claimedAt)

variable {r r' : Row}

theorem Becomes.event_eq (becomes : r.Becomes r') : r'.event = r.event := by
  cases becomes <;> rfl

theorem Becomes.createdAt_eq (becomes : r.Becomes r') : r'.createdAt = r.createdAt := by
  cases becomes <;> rfl

theorem Becomes.eq_of_sent (becomes : r.Becomes r') (sent : r.status = .sent) : r' = r := by
  cases becomes with
  | same => rfl
  | held waiting now =>
      rw [sent] at waiting
      cases waiting
  | sent held =>
      rw [sent] at held
      cases held
  | putBack held =>
      rw [sent] at held
      cases held

theorem Becomes.isTidy (becomes : r.Becomes r') (tidy : r.IsTidy) : r'.IsTidy := by
  cases becomes with
  | same => exact tidy
  | held waiting now => exact ⟨fun _ => rfl, fun _ => rfl⟩
  | sent _ => exact ⟨(fun some_ => nomatch some_), (fun held => nomatch held)⟩
  | putBack _ => exact ⟨(fun some_ => nomatch some_), (fun held => nomatch held)⟩

theorem Becomes.release {ref : RowRef} (held : r.isHeldAs ref = true) {status : OutboxStatus}
    (ended : status ≠ .processing) : r.Becomes (r.letGo status) := by
  rw [isHeldAs, Bool.and_eq_true, isHeld, decide_eq_true_eq, decide_eq_true_eq] at held
  cases status with
  | unsent => exact .putBack held.2
  | processing => exact absurd rfl ended
  | sent => exact .sent held.2

end Row

/-- Every row is still in its place, and rows that are new wait behind them. -/
def Becomes (box other : Outbox) : Prop :=
  ∃ kept new, other.rows = kept ++ new ∧ List.Forall₂ Row.Becomes box.rows kept ∧
    ∀ r ∈ new, r.status = .unsent ∧ r.claimedAt = none

section

variable {box other : Outbox} {r : Row} {e : VaultEvent}

theorem becomes_map {f : Row → Row} (each : ∀ r ∈ box.rows, r.Becomes (f r)) :
    box.Becomes ⟨box.rows.map f⟩ := by
  refine ⟨box.rows.map f, [], (List.append_nil _).symm, ?_, fun r none_ => ?_⟩
  · exact List.forall₂_map_right_iff.mpr (List.forall₂_same.mpr each)
  · exact absurd none_ List.not_mem_nil

theorem Becomes.refl (box : Outbox) : box.Becomes box := by
  have same : box.Becomes ⟨box.rows.map id⟩ := becomes_map fun r _ => .same
  rwa [List.map_id] at same

theorem becomes_release (ref : RowRef) {status : OutboxStatus} (ended : status ≠ .processing)
    (box : Outbox) : box.Becomes (box.release ref status) := by
  have rows : List.Forall₂ Row.Becomes box.rows (box.release ref status).rows := by
    unfold release
    induction box.rows with
    | nil => exact .nil
    | cons r rows ih =>
        cases held : r.isHeldAs ref with
        | true =>
            simp only [Store.changeFirst, held, if_true]
            exact .cons (.release held ended) (List.forall₂_same.mpr fun _ _ => .same)
        | false =>
            simp only [Store.changeFirst, held, Bool.false_eq_true, if_false]
            exact .cons .same ih
  exact ⟨_, [], (List.append_nil _).symm, rows, fun r none_ => absurd none_ List.not_mem_nil⟩

theorem becomes_claim (keys : (box.events.map VaultEvent.key).Nodup) (limit : Int) (now : Moment) :
    box.Becomes (box.claim limit now).2 := by
  refine becomes_map ?_
  intro r member
  split
  · rename_i taken
    obtain ⟨t, among, same⟩ := List.any_eq_true.mp taken
    obtain ⟨a, a_mem, rfl, claimable⟩ := claimable_of_mem_claimed among
    rw [events, List.map_map] at keys
    obtain rfl := List.inj_on_of_nodup_map keys a_mem member (of_decide_eq_true same)
    exact .held (isUnsent_of_isClaimable claimable) now
  · exact .same

theorem becomes_sweep (limit : Moment) (box : Outbox) : box.Becomes (box.sweep limit) := by
  refine becomes_map ?_
  intro r _
  split
  · rename_i stale
    rw [Row.isStale, Bool.and_eq_true, Row.isHeld, decide_eq_true_eq] at stale
    exact .putBack stale.1
  · exact .same

theorem becomes_record (same : ∀ r ∈ box.rows, r.event.key = e.key → r.event = e) :
    box.Becomes (box.record e) := by
  by_cases known : ∃ r ∈ box.rows, r.event.key = e.key
  · rw [record_of_known same known]
    exact .refl box
  · rw [record_of_new fun r member key => known ⟨r, member, key⟩]
    refine ⟨box.rows, _, rfl, List.forall₂_same.mpr fun _ _ => .same, ?_⟩
    intro r member
    rw [List.mem_singleton.mp member]
    exact ⟨rfl, rfl⟩

/-- Every operation leaves the rows to what may become of them, as long as an event that is recorded
again is the same. -/
theorem becomes_answer (keys : (box.events.map VaultEvent.key).Nodup) (now : Moment) {c : Call}
    (same : ∀ e, c = .record e → ∀ r ∈ box.rows, r.event.key = e.key → r.event = e) :
    box.Becomes (answer now c box).2 := by
  cases c with
  | record e => exact becomes_record (same e rfl)
  | claim limit => exact becomes_claim keys limit now
  | markSent ref => exact becomes_release ref (by decide) box
  | markFailed ref => exact becomes_release ref (by decide) box
  | reclaim olderThan => exact becomes_sweep _ box

/-- Every row has its successor. -/
theorem Becomes.exists_of_mem (becomes : box.Becomes other) (member : r ∈ box.rows) :
    ∃ r' ∈ other.rows, r.Becomes r' := by
  obtain ⟨kept, new, rows, each, -⟩ := becomes
  obtain ⟨i, inside, rfl⟩ := List.mem_iff_getElem.mp member
  have inside' : i < kept.length := each.length_eq ▸ inside
  refine ⟨kept[i], ?_, List.Forall₂.get each inside inside'⟩
  rw [rows]
  exact List.mem_append_left _ (List.getElem_mem inside')

/-- Every row has its predecessor, or is new. -/
theorem Becomes.origin (becomes : box.Becomes other) {r' : Row} (member : r' ∈ other.rows) :
    (∃ r ∈ box.rows, r.Becomes r') ∨ r'.status = .unsent ∧ r'.claimedAt = none := by
  obtain ⟨kept, new, rows, each, waiting⟩ := becomes
  rw [rows] at member
  rcases List.mem_append.mp member with old | added
  · obtain ⟨i, inside, rfl⟩ := List.mem_iff_getElem.mp old
    have inside' : i < box.rows.length := each.length_eq ▸ inside
    exact .inl ⟨_, List.getElem_mem inside', List.Forall₂.get each inside' inside⟩
  · exact .inr (waiting r' added)

/-- Every operation keeps the keys different, also a record of another event under a known key. -/
theorem nodup_keys_answer (keys : (box.events.map VaultEvent.key).Nodup) (now : Moment) (c : Call) :
    ((answer now c box).2.events.map VaultEvent.key).Nodup := by
  by_cases recorded : ∃ e, c = .record e
  · obtain ⟨e, rfl⟩ := recorded
    rw [events, List.map_map] at keys ⊢
    change ((box.record e).rows.map (·.event.key)).Nodup
    rw [record, Store.changeOrAdd]
    split
    · rwa [Store.map_changeFirst fun r fits => (of_decide_eq_true fits).symm]
    · rename_i unknown
      rw [List.map_append, List.nodup_append]
      refine ⟨keys, List.nodup_singleton _, ?_⟩
      intro k old k' added same
      obtain ⟨r, member, rfl⟩ := List.mem_map.mp old
      rw [List.mem_singleton.mp added] at same
      exact unknown (List.any_eq_true.mpr ⟨r, member, decide_eq_true same⟩)
  · have other : ∀ e, c ≠ .record e := fun e here => recorded ⟨e, here⟩
    rw [events_of_entries (entries_answer other now box)]
    exact keys

/-- The outboxes that operations can lead to, whatever they record and whenever they come. -/
inductive Reachable : Outbox → Prop
  | empty : Reachable .empty
  | step (c : Call) (now : Moment) {box : Outbox} (reached : Reachable box) :
      Reachable (answer now c box).2

theorem Reachable.nodup_keys (reached : Reachable box) :
    (box.events.map VaultEvent.key).Nodup := by
  induction reached with
  | empty => exact List.nodup_nil
  | step c now _ ih => exact nodup_keys_answer ih now c

theorem mem_events_answer (now : Moment) {c : Call} (member : e ∈ (answer now c box).2.events)
    (same : ∀ e, c = .record e → ∀ r ∈ box.rows, r.event.key = e.key → r.event = e) :
    e ∈ box.events ∨ c = .record e := by
  by_cases recorded : ∃ e, c = .record e
  · obtain ⟨e', rfl⟩ := recorded
    change e ∈ (box.record e').events at member
    by_cases known : ∃ r ∈ box.rows, r.event.key = e'.key
    · rw [record_of_known (same e' rfl) known] at member
      exact .inl member
    · rw [events_record_of_new fun r among key => known ⟨r, among, key⟩] at member
      rcases List.mem_append.mp member with old | added
      · exact .inl old
      · exact .inr (List.mem_singleton.mp added ▸ rfl)
  · have other : ∀ e, c ≠ .record e := fun e here => recorded ⟨e, here⟩
    rw [events_of_entries (entries_answer other now box)] at member
    exact .inl member

/-- A row that is sent was so before, or has been marked. -/
theorem sent_or_marked (now : Moment) {c : Call} (member : r ∈ (answer now c box).2.rows)
    (sent : r.status = .sent)
    (same : ∀ e, c = .record e → ∀ r ∈ box.rows, r.event.key = e.key → r.event = e) :
    r ∈ box.rows ∨ c = .markSent r.event.ref := by
  by_cases recorded : ∃ e, c = .record e
  · obtain ⟨e, rfl⟩ := recorded
    change r ∈ (box.record e).rows at member
    by_cases known : ∃ r ∈ box.rows, r.event.key = e.key
    · rw [record_of_known (same e rfl) known] at member
      exact .inl member
    · rw [record_of_new fun r among key => known ⟨r, among, key⟩] at member
      rcases List.mem_append.mp member with old | added
      · exact .inl old
      · rw [List.mem_singleton.mp added] at sent
        cases sent
  · exact sent_of_mem_answer (fun e here => recorded ⟨e, here⟩) member sent

/-- An event that is recorded again leaves all rows but for their events as they are. -/
theorem map_delivery_record (known : ∃ r ∈ box.rows, r.event.key = e.key) :
    (box.record e).rows.map Row.delivery = box.rows.map Row.delivery := by
  obtain ⟨r, member, key⟩ := known
  have found : box.rows.any (Row.hasKey e.key) = true :=
    List.any_eq_true.mpr ⟨r, member, by simp [Row.hasKey, key]⟩
  rw [record, Store.changeOrAdd, if_pos found, Store.map_changeFirst]
  intro r _
  rfl

end

end VaultTransfers.Outbox
