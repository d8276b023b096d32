import VaultTransfers.Pipeline.Publish
import VaultTransfers.Proofs.Program.Pool

/-!
Which disciplines batches keep to. What a batch relies on about the rows that it
has still to deal with comes with the claim, is not taken away by others, and is
passed on from row to row: past a row that is sent, and past a wallet that has
failed. A discipline that grants so much, and the calls in question, is one that
every batch keeps to.
-/

namespace VaultTransfers.Publish

open Program (Meets)

variable {σ : Type}

/-- What batches need of a discipline; `ready` is what a batch relies on about the rows that it has
still to deal with, and `told` what it knows of an event that the bus has taken from it. -/
structure Grants (d : Discipline Publish.interface σ)
    (ready : List String → List OutboxEvent → σ → Prop) (told : VaultEvent → σ → Prop) : Prop where
  now : ∀ s, d.allowed .now s
  reclaim : ∀ n s, d.allowed (.outbox (.reclaim n)) s
  claim : ∀ n s, d.allowed (.outbox (.claim n)) s
  putBack : ∀ ref s, d.allowed (.outbox (.markFailed ref)) s
  send : ∀ halted row rows t s, ready halted (row :: rows) s → row.event.wallet ∉ halted →
    d.allowed (.send row.event.wallet (Message.ofEvent row.event t).toBytes) s
  markSent : ∀ halted row rows s, ready halted (row :: rows) s → told row.event s →
    d.allowed (.outbox (.markSent row.event.ref)) s
  /-- A claim hands out rows that a batch can rely on. -/
  claimed : ∀ n rows s t, d.good s → d.serve (.outbox (.claim n)) s (.ok rows) t → ready [] rows t
  sent : ∀ e time s t,
    d.serve (.send e.wallet (Message.ofEvent e time).toBytes) s (.ok ()) t → told e t
  ready_of_moves : ∀ halted rows s t, ready halted rows s → d.moves s t → d.good t →
    ready halted rows t
  told_of_moves : ∀ e s t, told e s → d.moves s t → told e t
  /-- Behind a row that is sent, the others are next. -/
  pass : ∀ halted row rows s, ready halted (row :: rows) s → told row.event s → ready halted rows s
  /-- Behind a row whose wallet has failed, the others are left. -/
  halt : ∀ halted more row rows s, ready halted (row :: rows) s → halted ⊆ more →
    row.event.wallet ∈ more → ready more rows s

section

variable {d : Discipline Publish.interface σ} {ready : List String → List OutboxEvent → σ → Prop}
  {told : VaultEvent → σ → Prop} {row : OutboxEvent} {rows : List OutboxEvent} {p : Progress} {s : σ}

/-- A mark, and what is left to be said when it has been made. -/
theorem meets_mark {c : Outbox.Call} {α : Type} {a : α} {post : α → σ → Prop}
    (allowed : ∀ t, d.moves s t → d.good t → d.allowed (.outbox c) t)
    (marked : ∀ t, d.moves s t → d.good t → post a t) :
    Meets d (askOutbox c >>= fun _ => pure a).run s fun r t => ∀ a, r = .ok a → post a t := by
  refine Meets.except_bind (Meets.perform allowed ?_)
  intro t r u moved good served
  obtain ⟨good', step⟩ := d.answered _ t r u good (allowed t moved good) served
  cases r with
  | ok _ =>
      rintro b same
      cases same
      exact marked u (d.moves_trans s t u moved step) good'
  | error fault =>
      intro b none_
      cases none_

theorem meets_deliver (grants : Grants d ready told) (holds : ready p.halted (row :: rows) s)
    (going : row.event.wallet ∉ p.halted) :
    Meets d (deliver row.event).run s fun r t => r = .ok true → told row.event t := by
  intro t moved good
  refine ⟨grants.now t, fun time u served => ?_⟩
  obtain ⟨-, step⟩ := d.answered _ t time u good (grants.now t) served
  intro v moved' good'
  have later := grants.ready_of_moves _ _ s v holds
    (d.moves_trans s u v (d.moves_trans s t u moved step) moved') good'
  refine ⟨grants.send _ row rows time v later going, fun reply w served => ?_⟩
  cases reply with
  | ok _ => exact fun _ => grants.sent _ _ v w served
  | error fault =>
      intro taken
      cases taken

theorem meets_handle (grants : Grants d ready told) (holds : ready p.halted (row :: rows) s) :
    Meets d (handle row p).run s fun r t => ∀ p, r = .ok p → ready p.halted rows t := by
  have kept {t : σ} (moved : d.moves s t) (good : d.good t) :=
    grants.ready_of_moves _ _ s t holds moved good
  unfold handle
  by_cases halted : p.halted.contains row.event.wallet
  · simp only [halted, if_true]
    refine meets_mark (fun t _ _ => grants.putBack _ t) fun t moved good => ?_
    exact grants.halt _ _ row rows t (kept moved good) (List.Subset.refl _)
      (List.contains_iff_mem.mp halted)
  · simp only [halted]
    have going : row.event.wallet ∉ p.halted := fun member =>
      halted (List.contains_iff_mem.mpr member)
    refine Meets.except_bind ((meets_deliver grants holds going).and_moves.mono ?_)
    rintro r t ⟨delivered, moved⟩
    cases r with
    | error fault =>
        intro p none_
        cases none_
    | ok taken =>
        cases taken with
        | true =>
            have said {u : σ} (later : d.moves t u) :=
              grants.told_of_moves _ t u (delivered rfl) later
            refine meets_mark ?_ ?_
            · intro u later good
              have here := kept (d.moves_trans s t u moved later) good
              exact grants.markSent _ row rows u here (said later)
            · intro u later good
              have here := kept (d.moves_trans s t u moved later) good
              exact grants.pass _ row rows u here (said later)
        | false =>
            refine meets_mark (fun u _ _ => grants.putBack _ u) fun u later good => ?_
            have here := kept (d.moves_trans s t u moved later) good
            exact grants.halt _ _ row rows u here (List.subset_cons_self _ _) List.mem_cons_self

theorem meets_release (grants : Grants d ready told) (rows : List OutboxEvent) (s : σ) :
    Meets d (release rows) s fun _ _ => True := by
  induction rows generalizing s with
  | nil => trivial
  | cons row rows ih => exact fun t _ _ => ⟨grants.putBack _ t, fun r u _ => ih u⟩

theorem meets_handleAll (grants : Grants d ready told) (holds : ready p.halted rows s) :
    Meets d (handleAll rows p).run s fun _ _ => True := by
  induction rows generalizing p s with
  | nil => trivial
  | cons row rows ih =>
      have first : Meets d (ExceptT.lift (handle row p).run : Task _).run s fun r t =>
          ∀ p, r = .ok (.ok p) → ready p.halted rows t := by
        refine Meets.bind ((meets_handle grants holds).mono ?_)
        rintro r t next p same
        cases same
        exact next p rfl
      refine Meets.except_bind (first.mono ?_)
      intro r t next
      cases r with
      | error fault => trivial
      | ok r =>
          cases r with
          | ok p => exact ih (next p rfl)
          | error fault =>
              refine Meets.except_bind (Meets.bind ((meets_release grants (row :: rows) t).mono ?_))
              intro _ u _
              trivial

/-- A batch keeps to such a discipline from any state on. -/
theorem meets_batch (grants : Grants d ready told) (plan : Plan) (s : σ) :
    Meets d (batch plan).run s fun _ _ => True := by
  refine Meets.except_bind (Meets.perform (fun t _ _ => grants.reclaim _ t) ?_)
  intro _ reclaimed t _ _ _
  cases reclaimed with
  | error fault => trivial
  | ok reclaimed =>
      refine Meets.except_bind (Meets.perform (fun t _ _ => grants.claim _ t) ?_)
      intro u rows u' _ good served
      cases rows with
      | error fault => trivial
      | ok rows =>
          have claimed := grants.claimed _ rows u u' good served
          refine Meets.except_bind ((meets_handleAll grants claimed).mono ?_)
          intro r v _
          cases r with
          | ok done => trivial
          | error fault => trivial

end

end VaultTransfers.Publish
