import VaultTransfers.Proofs.Store.Passage

/-!
What a claim hands out, and to whom it leaves the rest. A claim takes waiting
rows in the order of discovery, of no wallet of which a row is held, and leaves
no row behind an earlier one of the same wallet. As long as its rows are held and
stay with their wallets, no other claim takes a row of these wallets, whatever is
done to the outbox meanwhile.
-/

namespace VaultTransfers.Outbox

/-- What is handed out, and what becomes of the outbox, when at most so many rows are claimed. -/
structure HandsOut (box : Outbox) (limit : Int) (now : Moment) (taken : List OutboxEvent)
    (after : Outbox) : Prop where
  /-- As many rows as may be claimed, up to the limit. -/
  length : taken.length = min limit.toNat (box.rows.countP box.isClaimable)
  distinct : (taken.map (·.event.key)).Nodup
  sorted : taken.Pairwise fun a b => b.foundBefore a = false
  waiting : ∀ t ∈ taken, ∃ r ∈ box.rows, r.status = .unsent ∧
    t = { r.toOutboxEvent with status := .processing }
  free : ∀ t ∈ taken, ∀ r ∈ box.rows, r.event.wallet = t.event.wallet → r.status ≠ .processing
  /-- A waiting row of the wallet that is found earlier is not left behind. -/
  first : ∀ t ∈ taken, ∀ r ∈ box.rows, r.event.wallet = t.event.wallet → r.status = .unsent →
    r.foundBefore t = true → r.event ∈ taken.map (·.event)
  rows : after.rows = box.rows.map fun r =>
    if r.event ∈ taken.map (·.event) then r.hold now else r

section

variable {box : Outbox} {r : Row} {limit : Int} {t : OutboxEvent}

theorem length_claimed (limit : Int) (box : Outbox) :
    (box.claimed limit).length = min limit.toNat (box.rows.countP box.isClaimable) := by
  rw [claimed, List.length_take, OutboxEvent.inOrder, List.length_mergeSort, List.length_map,
    List.countP_eq_length_filter]

theorem pairwise_claimed (limit : Int) (box : Outbox) :
    (box.claimed limit).Pairwise fun a b => b.foundBefore a = false :=
  (OutboxEvent.pairwise_inOrder _).sublist (List.take_sublist _ _)

theorem isClaimable_iff :
    box.isClaimable r = true ↔ r.status = .unsent ∧
      ∀ o ∈ box.rows, o.event.wallet = r.event.wallet → o.status ≠ .processing := by
  simp only [isClaimable, holds, Row.isUnsent, Row.isHeld, Bool.and_eq_true, decide_eq_true_eq,
    Bool.not_eq_true', List.any_eq_false, not_and]
  exact and_congr_right fun _ => forall₂_congr fun o _ => ⟨fun h w s => h s w, fun h s w => h w s⟩

/-- Whatever the limit cuts off is not found before what is taken. -/
theorem mem_claimed_of_foundBefore (member : r ∈ box.rows) (claimable : box.isClaimable r = true)
    (taken : t ∈ box.claimed limit) (found : r.foundBefore t = true) :
    r.toOutboxEvent ∈ box.claimed limit := by
  have among : r.toOutboxEvent ∈
      OutboxEvent.inOrder ((box.rows.filter box.isClaimable).map Row.toOutboxEvent) :=
    List.mem_mergeSort.mpr (List.mem_map_of_mem (List.mem_filter.mpr ⟨member, claimable⟩))
  have sorted := OutboxEvent.pairwise_inOrder
    ((box.rows.filter box.isClaimable).map Row.toOutboxEvent)
  rw [← List.take_append_drop limit.toNat (OutboxEvent.inOrder _)] at among sorted
  rcases List.mem_append.mp among with ahead | left
  · exact ahead
  · have order := (List.pairwise_append.mp sorted).2.2 t taken _ left
    rw [found] at order
    cases order

theorem handsOut_claim (keys : (box.events.map VaultEvent.key).Nodup) (limit : Int)
    (now : Moment) : box.HandsOut limit now (box.claim limit now).1 (box.claim limit now).2 where
  length := by
    rw [claim, List.length_map]
    exact length_claimed limit box
  distinct := by
    have distinct := nodup_keys_claimed keys limit
    rw [claim, List.map_map]
    exact distinct
  sorted := List.pairwise_map.mpr (pairwise_claimed limit box)
  waiting t member := by
    obtain ⟨t, taken, rfl⟩ := List.mem_map.mp member
    obtain ⟨r, among, rfl, claimable⟩ := claimable_of_mem_claimed taken
    exact ⟨r, among, (isClaimable_iff.mp claimable).1, rfl⟩
  free t member := by
    obtain ⟨t, taken, rfl⟩ := List.mem_map.mp member
    obtain ⟨r, -, rfl, claimable⟩ := claimable_of_mem_claimed taken
    exact (isClaimable_iff.mp claimable).2
  first t member r among wallet unsent found := by
    obtain ⟨t, taken, rfl⟩ := List.mem_map.mp member
    obtain ⟨a, -, rfl, claimable⟩ := claimable_of_mem_claimed taken
    have free := (isClaimable_iff.mp claimable).2
    have claimable' : box.isClaimable r = true :=
      isClaimable_iff.mpr ⟨unsent, fun o o_mem same => free o o_mem (same.trans wallet)⟩
    rw [events_claim]
    exact List.mem_map_of_mem (mem_claimed_of_foundBefore among claimable' taken found)
  rows := by
    rw [events_claim]
    exact rows_claim keys limit now

end

/-- The outbox behind calls that are answered one after the other, each at its time. -/
def afterAll : List (Moment × Call) → Outbox → Outbox
  | [], box => box
  | (now, c) :: history, box => afterAll history (answer now c box).2

/-- Whether a call marks the row, which is held, or takes it for lost. -/
def Call.letsGo (now : Moment) (r : Row) : Call → Bool
  | .record _ | .claim _ => false
  | .markSent ref | .markFailed ref => r.isHeldAs ref
  | .reclaim olderThan => r.isStale (now - .ofMillis olderThan)

/-- When a call of the history comes, it is as stated to each row under one of the keys. -/
def Throughout (keys : List EventKey) (fits : Moment → Call → Row → Prop) :
    List (Moment × Call) → Outbox → Prop
  | [], _ => True
  | (now, c) :: history, box =>
    (∀ r ∈ box.rows, r.event.key ∈ keys → fits now c r) ∧
      Throughout keys fits history (answer now c box).2

/-- None of the rows is marked or taken for lost. -/
def Spares (keys : List EventKey) : List (Moment × Call) → Outbox → Prop :=
  Throughout keys fun now c r => c.letsGo now r = false

/-- None of the rows is recorded again for another wallet. -/
def LeavesWallets (keys : List EventKey) : List (Moment × Call) → Outbox → Prop :=
  Throughout keys fun _ c r => ∀ e, c = .record e → e.key = r.event.key →
    e.wallet = r.event.wallet

/-- The row of the key is held and is one of the wallet. -/
def HoldsFor (box : Outbox) (key : EventKey) (wallet : String) : Prop :=
  ∃ r ∈ box.rows, r.event.key = key ∧ r.event.wallet = wallet ∧ r.status = .processing

section

variable {box : Outbox} {key : EventKey} {wallet : String} {keys : List EventKey}

theorem HoldsFor.of_claim {limit : Int} {now : Moment} {t : OutboxEvent}
    (taken : t ∈ (box.claim limit now).1) :
    (box.claim limit now).2.HoldsFor t.event.key t.event.wallet := by
  obtain ⟨r, member, event, held⟩ := held_event_of_mem_claim taken
  exact ⟨r, member, congrArg VaultEvent.key event, congrArg (·.wallet) event, held⟩

/-- A record changes the event of the row with its key and leaves all other rows alone. -/
theorem HoldsFor.record (holds : box.HoldsFor key wallet) {e : VaultEvent}
    (unique : (box.events.map VaultEvent.key).Nodup) (kept : e.key = key → e.wallet = wallet) :
    (box.record e).HoldsFor key wallet := by
  obtain ⟨r, member, rfl, rfl, held⟩ := holds
  have single : box.rows.Pairwise fun a b =>
      Row.hasKey e.key a = true → Row.hasKey e.key b = false := by
    rw [events, List.map_map] at unique
    refine (List.pairwise_map.mp unique).imp ?_
    intro a b apart first
    rw [Row.hasKey, decide_eq_true_eq] at first
    rw [Row.hasKey, decide_eq_false_iff_not, ← first]
    exact fun second => apart second.symm
  unfold HoldsFor record
  rw [Store.changeOrAdd, Store.changeFirst_eq_map single]
  by_cases same : r.event.key = e.key
  · have fits : Row.hasKey e.key r = true := decide_eq_true same
    rw [if_pos (List.any_eq_true.mpr ⟨r, member, fits⟩)]
    refine ⟨_, List.mem_map_of_mem member, ?_⟩
    rw [if_pos fits]
    exact ⟨same.symm, kept same.symm, held⟩
  · have unfit : Row.hasKey e.key r = false := decide_eq_false same
    refine ⟨r, ?_, rfl, rfl, held⟩
    split
    · exact List.mem_map.mpr ⟨r, member, if_neg (by simp [unfit])⟩
    · exact List.mem_append_left _ member

/-- A row that is held stays so under any call that does not let it go. -/
theorem HoldsFor.answer (holds : box.HoldsFor key wallet)
    (unique : (box.events.map VaultEvent.key).Nodup) {now : Moment} {c : Call}
    (spares : ∀ r ∈ box.rows, r.event.key = key → c.letsGo now r = false)
    (kept : ∀ e, c = .record e → e.key = key → e.wallet = wallet) :
    (Outbox.answer now c box).2.HoldsFor key wallet := by
  cases c with
  | record e => exact holds.record unique (kept e rfl)
  | claim limit =>
      obtain ⟨r, member, sameKey, sameWallet, held⟩ := holds
      refine ⟨_, List.mem_map_of_mem member, ?_⟩
      split
      · exact ⟨sameKey, sameWallet, rfl⟩
      · exact ⟨sameKey, sameWallet, held⟩
  | markSent ref =>
      obtain ⟨r, member, sameKey, rest⟩ := holds
      exact ⟨r, Store.mem_changeFirst_of_not member (spares r member sameKey), sameKey, rest⟩
  | markFailed ref =>
      obtain ⟨r, member, sameKey, rest⟩ := holds
      exact ⟨r, Store.mem_changeFirst_of_not member (spares r member sameKey), sameKey, rest⟩
  | reclaim olderThan =>
      obtain ⟨r, member, sameKey, rest⟩ := holds
      have fresh := spares r member sameKey
      refine ⟨r, List.mem_map.mpr ⟨r, member, if_neg ?_⟩, sameKey, rest⟩
      exact Bool.eq_false_iff.mp fresh

theorem HoldsFor.afterAll (holds : box.HoldsFor key wallet) (among : key ∈ keys)
    {history : List (Moment × Call)} (unique : (box.events.map VaultEvent.key).Nodup)
    (spares : Spares keys history box) (leaves : LeavesWallets keys history box) :
    (afterAll history box).HoldsFor key wallet := by
  induction history generalizing box with
  | nil => exact holds
  | cons call history ih =>
      obtain ⟨now, c⟩ := call
      have next : (Outbox.answer now c box).2.HoldsFor key wallet := by
        refine holds.answer unique (fun r member same => ?_) fun e recorded same => ?_
        · exact spares.1 r member (same ▸ among)
        · obtain ⟨r, member, sameKey, sameWallet, -⟩ := holds
          rw [← sameWallet]
          exact leaves.1 r member (sameKey ▸ among) e recorded (same.trans sameKey.symm)
      exact ih next (nodup_keys_answer unique now c) spares.2 leaves.2

theorem nodup_keys_afterAll (unique : (box.events.map VaultEvent.key).Nodup)
    (history : List (Moment × Call)) :
    ((afterAll history box).events.map VaultEvent.key).Nodup := by
  induction history generalizing box with
  | nil => exact unique
  | cons call history ih => exact ih (nodup_keys_answer unique call.1 call.2)

/-- A claim hands out the first waiting rows of free wallets. Until its rows are let go or come to
be of other wallets, no later claim hands out a row of a wallet that it has handed out one of. -/
theorem claims_of_different_wallets (reached : box.Reachable) (limit : Int) (now : Moment)
    {history : List (Moment × Call)}
    (spares : Spares ((box.claim limit now).1.map (·.event.key)) history (box.claim limit now).2)
    (leaves : LeavesWallets ((box.claim limit now).1.map (·.event.key)) history
      (box.claim limit now).2) (limit' : Int) (now' : Moment) :
    box.HandsOut limit now (box.claim limit now).1 (box.claim limit now).2 ∧
      ∀ a ∈ (box.claim limit now).1,
        ∀ b ∈ ((afterAll history (box.claim limit now).2).claim limit' now').1,
          a.event.wallet ≠ b.event.wallet := by
  refine ⟨handsOut_claim reached.nodup_keys limit now, ?_⟩
  intro a a_mem b b_mem same
  have unique := (Reachable.step (.claim limit) now reached).nodup_keys
  have among : a.event.key ∈ (box.claim limit now).1.map (·.event.key) :=
    List.mem_map.mpr ⟨a, a_mem, rfl⟩
  obtain ⟨r, member, -, wallet, held⟩ :=
    (HoldsFor.of_claim a_mem).afterAll among unique spares leaves
  have later := handsOut_claim (nodup_keys_afterAll unique history) limit' now'
  exact later.free b b_mem r member (wallet.trans same) held

def waitingEvent (place : Nat) (wallet : String) : VaultEvent where
  txHash := "0x" ++ String.ofList (Nat.toDigits 16 place)
  logIndex := 0
  blockNumber := .ofNat place
  date := .ofUnixMillis 0
  wallet := wallet
  amount := "5"
  fromAsset := "share"
  toAsset := "token"
  payload := .withdrawalCompleted ⟨wallet, "share", "token", "5", "5", "0"⟩

def waitingRow (place : Nat) (wallet : String) : Row where
  event := waitingEvent place wallet
  status := .unsent
  createdAt := recordedAt (place - 1)
  claimedAt := none

/-- Two rows of a wallet, and a later one of another. -/
def waitingRows : Outbox :=
  ⟨[waitingRow 1 "w", waitingRow 2 "w", waitingRow 3 "x"]⟩

theorem reachable_waitingRows : waitingRows.Reachable :=
  .step (.record (waitingEvent 3 "x")) 0
    (.step (.record (waitingEvent 2 "w")) 0 (.step (.record (waitingEvent 1 "w")) 0 .empty))

theorem claim_waitingRows :
    waitingRows.claim 1 0 =
      ([((waitingRow 1 "w").hold 0).toOutboxEvent],
        ⟨[(waitingRow 1 "w").hold 0, waitingRow 2 "w", waitingRow 3 "x"]⟩) := by
  have ordered : waitingRows.Ordered := ⟨by decide, by decide⟩
  rw [claim, ordered.claimed_eq]
  rfl

/-- The held row is scanned again, the other row of its wallet is marked in vain, and a sweep comes
too early. -/
def quietHistory : List (Moment × Call) :=
  [(0, .record { waitingEvent 1 "w" with amount := "6" }),
    (0, .markFailed (waitingEvent 2 "w").ref), (1, .reclaim 1000)]

theorem claims_of_different_wallets_around_rescan :
    ((afterAll quietHistory (waitingRows.claim 1 0).2).claim 10 2).1.map (·.event.wallet) = ["x"] ∧
      ∀ a ∈ (waitingRows.claim 1 0).1,
        ∀ b ∈ ((afterAll quietHistory (waitingRows.claim 1 0).2).claim 10 2).1,
          a.event.wallet ≠ b.event.wallet := by
  constructor
  · have ordered : (afterAll quietHistory (waitingRows.claim 1 0).2).Ordered := by
      rw [claim_waitingRows]
      exact ⟨by decide, by decide⟩
    rw [claim, ordered.claimed_eq, claim_waitingRows]
    rfl
  refine (claims_of_different_wallets reachable_waitingRows 1 0 ?_ ?_ 10 2).2
  · rw [claim_waitingRows]
    exact ⟨by decide, by decide, by decide, trivial⟩
  · rw [claim_waitingRows]
    refine ⟨?_, ?_, ?_, trivial⟩
    · rintro r member - e ⟨⟩ same
      have owned : ∀ r ∈ [(waitingRow 1 "w").hold 0, waitingRow 2 "w", waitingRow 3 "x"],
          (waitingEvent 1 "w").key = r.event.key → "w" = r.event.wallet := by decide
      exact owned r member same
    · rintro _ _ _ e ⟨⟩
    · rintro _ _ _ e ⟨⟩

/-- A held row that is recorded again for another wallet leaves its first wallet free, so that the
next claim hands out another row of that wallet. -/
theorem renamed_row_frees_wallet :
    waitingRows.Reachable ∧
      Spares ((waitingRows.claim 1 0).1.map (·.event.key))
        [(0, .record (waitingEvent 1 "y"))] (waitingRows.claim 1 0).2 ∧
      ∃ a ∈ (waitingRows.claim 1 0).1,
        ∃ b ∈ ((afterAll [(0, .record (waitingEvent 1 "y"))] (waitingRows.claim 1 0).2).claim
            10 0).1, a.event.wallet = b.event.wallet := by
  refine ⟨reachable_waitingRows, ⟨fun _ _ _ => rfl, trivial⟩, ?_⟩
  have later : ((afterAll [(0, .record (waitingEvent 1 "y"))] (waitingRows.claim 1 0).2).claim
      10 0).1 = [((waitingRow 2 "w").hold 0).toOutboxEvent,
        ((waitingRow 3 "x").hold 0).toOutboxEvent] := by
    have ordered : (afterAll [(0, .record (waitingEvent 1 "y"))]
        (waitingRows.claim 1 0).2).Ordered := by
      rw [claim_waitingRows]
      exact ⟨by decide, by decide⟩
    rw [claim, ordered.claimed_eq, claim_waitingRows]
    rfl
  rw [later, claim_waitingRows]
  exact ⟨_, List.mem_cons_self, _, List.mem_cons_self, rfl⟩

end

end VaultTransfers.Outbox
