import VaultTransfers.Proofs.Scan.Range
import VaultTransfers.Proofs.Store.Outbox

/-!
Ticks of a scanner, one after the other, with failures anywhere. What is recorded
is always a first part of the events of final blocks, and the cursor is never
moved over a block before its events are recorded.
-/

namespace VaultTransfers.Scan

open Program (Ends)

theorem Plan.safeBlock_mono (p : Plan) {a b : UInt64} (later : a ≤ b) :
    p.safeBlock a ≤ p.safeBlock b := by
  unfold Plan.safeBlock
  by_cases first : p.finalityOffset ≤ a
  · have second := UInt64.le_trans first later
    rw [if_pos first, if_pos second, UInt64.le_iff_toNat_le, UInt64.toNat_sub_of_le _ _ first,
      UInt64.toNat_sub_of_le _ _ second]
    rw [UInt64.le_iff_toNat_le] at later
    omega
  · rw [if_neg first, UInt64.le_iff_toNat_le]
    simp

theorem chunkEnd_le {cursor safe : UInt64} (below : cursor < safe) (size : UInt64) :
    chunkEnd cursor safe size ≤ safe := by
  unfold chunkEnd
  split
  · exact UInt64.le_refl _
  · rename_i long
    have bound := safe.toNat_lt
    simp only [UInt64.le_iff_toNat_le, UInt64.lt_iff_toNat_lt,
      UInt64.toNat_sub_of_le safe cursor (UInt64.le_of_lt below), UInt64.toNat_add] at *
    omega

/-- The outbox of a source that is scanned from behind `origin`: it has all events up to the cursor,
and none of behind `high`. -/
structure Recorded (src : Source) (origin high : UInt64) (s : Site) : Prop where
  ready : src.Ready s
  started : origin ≤ s.cursor.block
  timed : s.box.Timed
  within : s.box.events <+: src.events origin high
  behind : src.events origin s.cursor.block <+: s.box.events
  dated : src.Dated origin s.cursor.block

structure Site.Grows (s t : Site) : Prop where
  latest : s.latest ≤ t.latest
  box : s.box.Extends t.box

theorem Site.Grows.trans {s t u : Site} (first : s.Grows t) (second : t.Grows u) : s.Grows u :=
  ⟨UInt64.le_trans first.latest second.latest, first.box.trans second.box⟩

theorem Site.Looks.grows {s t : Site} (looks : s.Looks t) : s.Grows t :=
  ⟨looks.latest, looks.box ▸ .refl _⟩

theorem recorded_start (src : Source) (origin high latest : UInt64) :
    Recorded src origin high ⟨latest, src.watched, [], ⟨origin⟩, .empty⟩ where
  ready := ⟨rfl, fun _ none_ => absurd none_ List.not_mem_nil⟩
  started := UInt64.le_refl _
  timed := rfl
  within := List.nil_prefix
  behind := by
    have none_ : src.events origin origin = [] := Source.events_eq_nil (UInt64.le_refl _)
    exact none_ ▸ List.nil_prefix
  dated := by
    have none_ : src.qualifying origin origin = [] := Source.qualifying_eq_nil (UInt64.le_refl _)
    rw [Source.Dated, none_]
    exact fun _ member => absurd member List.not_mem_nil

section

variable {src : Source} {origin high : UInt64} {s t : Site}

theorem Recorded.mono (recorded : Recorded src origin high s) {higher : UInt64}
    (upper : high ≤ higher) : Recorded src origin higher s :=
  { recorded with within := recorded.within.trans (Source.events_mono upper) }

theorem Recorded.nodup_keys (recorded : Recorded src origin high s) :
    (s.box.events.map VaultEvent.key).Nodup :=
  (src.nodup_keys_events origin high).sublist (recorded.within.sublist.map _)

theorem Recorded.pairwise (recorded : Recorded src origin high s) :
    s.box.events.Pairwise fun a b => a.position.before b.position = true :=
  (src.pairwise_events origin high).sublist recorded.within.sublist

theorem Recorded.onClock (recorded : Recorded src origin high s) :
    ∀ e ∈ s.box.events, e.date.OnClock :=
  fun _ member => Source.onClock_of_mem_events (recorded.within.subset member)

theorem Recorded.ordered (recorded : Recorded src origin high s) : s.box.Ordered :=
  recorded.timed.ordered recorded.nodup_keys recorded.pairwise

/-- What is recorded does not depend on how far the rows have been dealt with. -/
theorem Recorded.of_entries (recorded : Recorded src origin high s) (ready : src.Ready t)
    (cursor : t.cursor = s.cursor) (entries : t.box.entries = s.box.entries) :
    Recorded src origin high t where
  ready := ready
  started := cursor ▸ recorded.started
  timed := recorded.timed.of_entries entries
  within := by
    rw [Outbox.events_of_entries entries]
    exact recorded.within
  behind := by
    rw [cursor, Outbox.events_of_entries entries]
    exact recorded.behind
  dated := cursor ▸ recorded.dated

theorem Recorded.of_looks (recorded : Recorded src origin high s) (looks : s.Looks t)
    (ready : src.Ready t) : Recorded src origin high t :=
  recorded.of_entries ready looks.cursor (congrArg Outbox.entries looks.box)

theorem Recorded.of_latest (recorded : Recorded src origin high s) (latest : UInt64) :
    Recorded src origin high { s with latest := latest } :=
  { recorded with ready := ⟨recorded.ready.watched, recorded.ready.remembered⟩ }

theorem ends_askOutbox {c : Outbox.Call} {post : Except Fault (Outbox.Value c) → Site → Prop}
    (answered : ∀ reply t, src.serves (.outbox c) s reply t →
      match reply with
      | .ok a => post (.ok a) t
      | .error fault => post (.error (.store fault)) t) :
    Ends src.serves (askOutbox c).run s post := by
  refine Ends.except_bind (Ends.bind (Ends.perform ?_))
  intro reply t served
  have holds := answered reply t served
  cases reply with
  | ok a => exact Ends.pure (Ends.pure holds)
  | error fault => exact Ends.pure (Ends.pure holds)

theorem ends_askCursor {c : Cursor.Call} {post : Except Fault (Cursor.Value c) → Site → Prop}
    (answered : ∀ reply t, src.serves (.cursor c) s reply t →
      match reply with
      | .ok a => post (.ok a) t
      | .error fault => post (.error (.store fault)) t) :
    Ends src.serves (askCursor c).run s post := by
  refine Ends.except_bind (Ends.bind (Ends.perform ?_))
  intro reply t served
  have holds := answered reply t served
  cases reply with
  | ok a => exact Ends.pure (Ends.pure holds)
  | error fault => exact Ends.pure (Ends.pure holds)

theorem ends_recordAll {all known es : List VaultEvent} (keys : (all.map VaultEvent.key).Nodup)
    (ready : src.Ready s) (timed : s.box.Timed) (whole : known ++ es <+: all)
    (before : known <+: s.box.events) (within : s.box.events <+: all) :
    Ends src.serves (recordAll es).run s fun r t =>
      src.Ready t ∧ t.cursor = s.cursor ∧ s.Grows t ∧ t.box.Timed ∧ t.box.events <+: all ∧
        known <+: t.box.events ∧ (r = .ok () → known ++ es <+: t.box.events) := by
  induction es generalizing known s with
  | nil =>
      apply Ends.pure
      refine ⟨ready, rfl, (Site.Looks.refl s).grows, timed, within, before, ?_⟩
      intro _
      rw [List.append_nil]
      exact before
  | cons e es ih =>
      unfold recordAll
      refine Ends.except_bind (ends_askOutbox ?_)
      rintro reply t ⟨latest, later, ⟨now, rfl, rfl⟩ | ⟨⟨fault, rfl⟩, rfl⟩⟩
      · obtain ⟨next, within', timed', extends_⟩ := Outbox.record_next keys whole before within
        rw [List.append_cons] at whole
        refine (ih (s := { s with latest := latest, box := s.box.record e })
          ⟨ready.watched, ready.remembered⟩ (timed' timed) whole next within').mono ?_
        rintro r u ⟨ready', cursor, grows, timed'', within'', known', all'⟩
        refine ⟨ready', cursor, Site.Grows.trans ⟨later, extends_⟩ grows, timed'', within'',
          (List.prefix_append _ _).trans known', ?_⟩
        intro done
        rw [List.append_cons]
        exact all' done
      · refine ⟨⟨ready.watched, ready.remembered⟩, rfl, ⟨later, .refl _⟩, timed, within, before, ?_⟩
        intro done
        cases done

/-- A range behind the cursor is recorded, or a part of it. -/
theorem ends_scanRange (recorded : Recorded src origin high s) {target : UInt64}
    (later : s.cursor.block < target) (final : target ≤ high) :
    Ends src.serves (scanRange src.plan (s.cursor.block + 1) target).run s fun r t =>
      Recorded src origin high t ∧ t.cursor = s.cursor ∧ s.Grows t ∧ ∀ n, r = .ok n →
        src.events origin target <+: t.box.events ∧ src.Dated s.cursor.block target := by
  unfold scanRange
  refine Ends.except_bind ((looking_resolveRange later s recorded.ready).mono ?_)
  rintro r t ⟨looks, ready, told⟩
  have recorded' := recorded.of_looks looks ready
  cases r with
  | error fault =>
      refine ⟨recorded', looks.cursor, looks.grows, ?_⟩
      intro n done
      cases done
  | ok es =>
      obtain ⟨rfl, dated⟩ := told es rfl
      have split : src.events origin target =
          src.events origin s.cursor.block ++ src.events s.cursor.block target :=
        Source.events_append recorded.started (UInt64.le_of_lt later)
      have whole : src.events origin s.cursor.block ++ src.events s.cursor.block target <+:
          src.events origin high := by
        rw [← split]
        exact Source.events_mono final
      have behind := recorded'.behind
      rw [looks.cursor] at behind
      refine Ends.except_bind ((ends_recordAll (src.nodup_keys_events origin high) ready
        recorded'.timed whole behind recorded'.within).mono ?_)
      rintro r u ⟨ready', cursor, grows, timed, within, behind', all⟩
      have cursor' := cursor.trans looks.cursor
      have recorded'' : Recorded src origin high u :=
        ⟨ready', cursor' ▸ recorded.started, timed, within, cursor' ▸ behind', cursor' ▸ recorded.dated⟩
      cases r with
      | error fault =>
          refine ⟨recorded'', cursor', looks.grows.trans grows, ?_⟩
          intro n done
          cases done
      | ok _ =>
          refine Ends.pure ⟨recorded'', cursor', looks.grows.trans grows, ?_⟩
          intro _ _
          rw [split]
          exact ⟨all rfl, dated⟩

theorem Recorded.advance (recorded : Recorded src origin high s) {target latest : UInt64}
    (later : s.cursor.block < target) (behind : src.events origin target <+: s.box.events)
    (dated : src.Dated s.cursor.block target) :
    Recorded src origin high { s with latest := latest, cursor := ⟨target⟩ } where
  ready := ⟨recorded.ready.watched, recorded.ready.remembered⟩
  started := UInt64.le_trans recorded.started (UInt64.le_of_lt later)
  timed := recorded.timed
  within := recorded.within
  behind := behind
  dated := by
    intro c member
    rw [Source.qualifying_append recorded.started (UInt64.le_of_lt later)] at member
    rcases List.mem_append.mp member with old | new
    · exact recorded.dated c old
    · exact dated c new

/-- Only when the cursor has been moved does the scan go on. -/
theorem ends_advance (recorded : Recorded src origin high s) {source target : UInt64}
    (here : s.cursor.block = source) (later : source < target)
    (behind : src.events origin target <+: s.box.events) (dated : src.Dated source target) :
    Ends src.serves (askCursor (.advance source target)).run s fun r t =>
      Recorded src origin high t ∧ s.Grows t ∧ (r = .ok true → target = t.cursor.block) := by
  subst here
  refine ends_askCursor ?_
  rintro reply t ⟨latest, grown, ⟨rfl, rfl⟩ | ⟨⟨fault, rfl⟩, rfl⟩⟩
  · have admitted : s.cursor.admits s.cursor.block target = true := by
      simp [Cursor.admits, later]
    simp only [Cursor.answer, admitted, if_true]
    exact ⟨recorded.advance later behind dated, ⟨grown, .refl _⟩, fun _ => trivial⟩
  · refine ⟨recorded.of_latest latest, ⟨grown, .refl _⟩, ?_⟩
    intro done
    cases done

theorem toNat_sub_chunkEnd_lt {cursor safe size : UInt64} (below : cursor < safe) (pos : 0 < size) :
    safe.toNat - (chunkEnd cursor safe size).toNat < safe.toNat - cursor.toNat := by
  have ahead := UInt64.lt_iff_toNat_lt.mp (lt_chunkEnd below pos)
  have below' := UInt64.lt_iff_toNat_lt.mp below
  omega

theorem ends_chunks (recorded : Recorded src origin high s) {sum : Summary}
    (cursor : sum.cursor = s.cursor.block) (final : sum.safeBlock ≤ high) :
    Ends src.serves (chunks src.plan sum).run s fun _ t =>
      Recorded src origin high t ∧ s.Grows t := by
  -- the induction is the loop's own, on the blocks that are left to scan
  induction left : sum.safeBlock.toNat - sum.cursor.toNat using Nat.strongRecOn
    generalizing sum s with
  | ind n ih =>
      rw [chunks]
      split
      · rename_i below
        refine Ends.except_bind (Ends.bind (Ends.perform ?_))
        rintro stopped t ⟨latest, grown, rfl⟩
        apply Ends.pure
        have looked := recorded.of_latest latest
        have grows : s.Grows { s with latest := latest } := ⟨grown, .refl _⟩
        simp only
        split
        · exact Ends.pure ⟨looked, grows⟩
        · have ahead := lt_chunkEnd below src.plan.chunkSize_pos
          have within := UInt64.le_trans (chunkEnd_le below src.plan.chunkSize) final
          have shorter := toNat_sub_chunkEnd_lt below src.plan.chunkSize_pos
          rw [left] at shorter
          rw [cursor] at ahead within shorter ⊢
          refine Ends.except_bind ((ends_scanRange looked ahead within).mono ?_)
          rintro r u ⟨scanned, same, scanning, told⟩
          have grown := grows.trans scanning
          cases r with
          | error fault => exact ⟨scanned, grown⟩
          | ok count =>
              obtain ⟨behind, dated⟩ := told count rfl
              have block : u.cursor.block = s.cursor.block := congrArg Cursor.block same
              refine Ends.except_bind ((ends_advance scanned block ahead behind dated).mono ?_)
              rintro r v ⟨advanced, advancing, moved⟩
              have grown' := grown.trans advancing
              cases r with
              | error fault => exact ⟨advanced, grown'⟩
              | ok answer =>
                  cases answer with
                  | false => exact Ends.pure ⟨advanced, grown'⟩
                  | true =>
                      refine Ends.mono (ih _ shorter advanced (moved rfl) final rfl) ?_
                      rintro _ t ⟨ended, more⟩
                      exact ⟨ended, grown'.trans more⟩
      · exact Ends.pure ⟨recorded, (Site.Looks.refl s).grows⟩

/-- However a tick goes, the outbox has all events up to the cursor, and none that is not final. -/
theorem ends_tick (recorded : Recorded src origin (src.plan.safeBlock s.latest) s) :
    Ends src.serves (tick src.plan).run s fun _ t =>
      Recorded src origin (src.plan.safeBlock t.latest) t ∧ s.Grows t := by
  unfold tick
  refine Ends.except_bind (Ends.except_bind (Ends.bind (Ends.perform ?_)))
  rintro reply t ⟨latest, later, answered, rfl⟩
  have recorded' := (recorded.mono (src.plan.safeBlock_mono later)).of_latest latest
  have grows : s.Grows { s with latest := latest } := ⟨later, .refl _⟩
  rcases answered with rfl | ⟨fault, rfl⟩
  · refine Ends.pure (Ends.pure (Ends.except_bind (ends_askCursor ?_)))
    rintro reply t ⟨latest', later', answered⟩
    have moved : Site.Grows { s with latest := latest } { s with latest := latest' } :=
      ⟨later', .refl _⟩
    have recorded'' := recorded'.of_latest latest'
    have upper := src.plan.safeBlock_mono later'
    rcases answered with ⟨rfl, rfl⟩ | ⟨⟨fault, rfl⟩, rfl⟩
    · refine Ends.mono (ends_chunks recorded'' rfl (UInt64.le_refl _)) ?_
      rintro r u ⟨final, grows'⟩
      exact ⟨final.mono (src.plan.safeBlock_mono (UInt64.le_trans later' grows'.latest)),
        grows.trans (moved.trans grows')⟩
    · exact ⟨recorded''.mono upper, grows.trans moved⟩
  · exact Ends.pure (Ends.pure ⟨recorded', grows⟩)

end

end VaultTransfers.Scan
