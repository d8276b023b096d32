import Mathlib.Data.List.Induction
import VaultTransfers.Proofs.Orders.Verdict
import VaultTransfers.Proofs.Store.Rows

/-!
The orders of one wallet, told from all of its messages at once. A row is made
where a deposit, a run of requests or a fulfilment without a request begins, and
what a run ends with is looked up ahead. The other half of this module says what
one more message at the end changes, which is how the rows come about in time.
-/

namespace VaultTransfers

namespace Message

/-- The estimate that a request leads to; other messages have none. -/
def quote (m : Message) : Option String :=
  match m.payload with
  | .ok (.withdrawalRequested request) => (Amount.estimate m.amount request.minPrice).toOption.join
  | _ => none

/-- The payload fits the kind, and the estimate of a request can be computed. -/
def IsSound (m : Message) : Prop :=
  match m.payload with
  | .ok (.withdrawalRequested request) => ∃ e, Amount.estimate m.amount request.minPrice = .ok e
  | .ok _ => True
  | .error _ => False

end Message

namespace Materialize

def depositRow (a : Arrival) : Order where
  id := a.fresh
  txHash := a.message.txHash
  logIndex := a.message.logIndex
  blockNumber := a.message.blockNumber
  date := a.message.date
  direction := .deposit
  status := .completed
  wallet := a.message.wallet
  amount := a.message.amount
  fromAsset := a.message.fromAsset
  toAsset := a.message.toAsset
  estimate := none
  completionTxHash := none
  completionLogIndex := none

/-- The withdrawal of a run of requests from the first to the last, and of the fulfilment behind
it, if there is one. A fulfilment without a run stands for all three. -/
def withdrawalRow (first : Arrival) (last : Message) (closing? : Option Message) : Order where
  id := first.fresh
  txHash := last.txHash
  logIndex := last.logIndex
  blockNumber := last.blockNumber
  date := last.date
  direction := .withdrawal
  status := if closing?.isSome then .completed else .inProgress
  wallet := first.message.wallet
  amount := last.amount
  fromAsset := last.fromAsset
  toAsset := last.toAsset
  estimate :=
    match closing? with
    | some fulfilment => some (last.quote.getD fulfilment.amount)
    | none => last.quote
  completionTxHash := closing?.map (·.txHash)
  completionLogIndex := closing?.map (·.logIndex)

/-- The last request before the next fulfilment. -/
def lastOfRun (last : Message) : List Arrival → Message
  | [] => last
  | a :: as =>
    match a.message.kind with
    | .deposit => lastOfRun last as
    | .withdrawalRequested => lastOfRun a.message as
    | .withdrawalCompleted => last

def closing? : List Arrival → Option Message
  | [] => none
  | a :: as =>
    match a.message.kind with
    | .deposit | .withdrawalRequested => closing? as
    | .withdrawalCompleted => some a.message

/-- The rows of a wallet's messages; `inRun` is whether a run has begun before them. -/
def reconstruct : (inRun : Bool) → List Arrival → List Order
  | _, [] => []
  | inRun, a :: as =>
    match a.message.kind, inRun with
    | .deposit, inRun => depositRow a :: reconstruct inRun as
    | .withdrawalRequested, true => reconstruct true as
    | .withdrawalRequested, false =>
      withdrawalRow a (lastOfRun a.message as) (closing? as) :: reconstruct true as
    | .withdrawalCompleted, true => reconstruct false as
    | .withdrawalCompleted, false =>
      withdrawalRow a a.message (some a.message) :: reconstruct false as

/-- Whether a run is left open behind the messages. -/
def inRunAfter (inRun : Bool) : List Arrival → Bool
  | [] => inRun
  | a :: as =>
    match a.message.kind with
    | .deposit => inRunAfter inRun as
    | .withdrawalRequested => inRunAfter true as
    | .withdrawalCompleted => inRunAfter false as

/-- What a further message of the wallet does to its open withdrawal. -/
def continued (m : Message) (o : Order) : Order :=
  match m.kind with
  | .deposit => o
  | .withdrawalRequested => revised o m m.quote
  | .withdrawalCompleted => closed o m

/-- The row that a further message of the wallet adds. -/
def startRow (a : Arrival) : Order :=
  match a.message.kind with
  | .deposit => depositRow a
  | .withdrawalRequested => withdrawalRow a a.message none
  | .withdrawalCompleted => withdrawalRow a a.message (some a.message)

theorem closing?_append (as : List Arrival) (b : Arrival) :
    closing? (as ++ [b]) =
      (closing? as).or (if b.message.kind = .withdrawalCompleted then some b.message else none) := by
  induction as with
  | nil => cases kind : b.message.kind <;> simp [closing?, kind]
  | cons a as ih => cases kind : a.message.kind <;> simp [closing?, kind, ih]

theorem lastOfRun_append (last : Message) (as : List Arrival) (b : Arrival) :
    lastOfRun last (as ++ [b]) =
      if b.message.kind = .withdrawalRequested ∧ closing? as = none then b.message
      else lastOfRun last as := by
  induction as generalizing last with
  | nil => cases kind : b.message.kind <;> simp [lastOfRun, closing?, kind]
  | cons a as ih => cases kind : a.message.kind <;> simp [lastOfRun, closing?, kind, ih]

theorem closing?_of_inRunAfter (as : List Arrival) (stopped : inRunAfter true as = false) :
    ∃ m, closing? as = some m := by
  induction as with
  | nil => simp [inRunAfter] at stopped
  | cons a as ih =>
      cases kind : a.message.kind with
      | deposit =>
          simp only [inRunAfter, kind] at stopped
          simpa [closing?, kind] using ih stopped
      | withdrawalRequested =>
          simp only [inRunAfter, kind] at stopped
          simpa [closing?, kind] using ih stopped
      | withdrawalCompleted => exact ⟨a.message, by simp [closing?, kind]⟩

theorem not_isOpen_depositRow (a : Arrival) : (depositRow a).isOpen = false := rfl

theorem isOpen_withdrawalRow (first : Arrival) (last : Message) (closing? : Option Message) :
    (withdrawalRow first last closing?).isOpen = closing?.isNone := by
  cases closing? <;> rfl

/-- The open row of a run that goes on is outside of what is made from its continuation. -/
theorem not_isOpen_of_closing?_none (as : List Arrival) (unclosed : closing? as = none) :
    ∀ o ∈ reconstruct true as, o.isOpen = false := by
  induction as with
  | nil => simp [reconstruct]
  | cons a as ih =>
      cases kind : a.message.kind with
      | deposit =>
          simp only [closing?, kind] at unclosed
          simpa [reconstruct, kind, not_isOpen_depositRow] using ih unclosed
      | withdrawalRequested =>
          simp only [closing?, kind] at unclosed
          simpa [reconstruct, kind] using ih unclosed
      | withdrawalCompleted => simp [closing?, kind] at unclosed

theorem continued_withdrawalRow (first : Arrival) (last : Message) (b : Arrival) :
    continued b.message (withdrawalRow first last none) =
      match b.message.kind with
      | .deposit => withdrawalRow first last none
      | .withdrawalRequested => withdrawalRow first b.message none
      | .withdrawalCompleted => withdrawalRow first last (some b.message) := by
  unfold continued
  cases b.message.kind <;> rfl

/-- A message that finds no run to go on with adds its row at the end. -/
theorem reconstruct_append_of_start (inRun : Bool) (as : List Arrival) (b : Arrival)
    (starts : b.message.kind = .deposit ∨ inRunAfter inRun as = false) :
    reconstruct inRun (as ++ [b]) = reconstruct inRun as ++ [startRow b] := by
  induction as generalizing inRun with
  | nil =>
      cases kind : b.message.kind <;> cases inRun <;>
        simp_all [inRunAfter, reconstruct, startRow, lastOfRun, closing?]
  | cons a as ih =>
      cases kind : a.message.kind with
      | deposit =>
          simp only [inRunAfter, kind] at starts
          simp [reconstruct, kind, ih inRun starts]
      | withdrawalRequested =>
          simp only [inRunAfter, kind] at starts
          cases inRun with
          | true => simp [reconstruct, kind, ih true starts]
          | false =>
              have sameLast : lastOfRun a.message (as ++ [b]) = lastOfRun a.message as := by
                rw [lastOfRun_append, if_neg]
                rintro ⟨request, unclosed⟩
                rcases starts with deposit | stopped
                · simp [request] at deposit
                · obtain ⟨m, closed⟩ := closing?_of_inRunAfter as stopped
                  simp [closed] at unclosed
              have sameClosing : closing? (as ++ [b]) = closing? as := by
                rw [closing?_append]
                rcases starts with deposit | stopped
                · simp [deposit]
                · obtain ⟨m, closed⟩ := closing?_of_inRunAfter as stopped
                  simp [closed]
              simp [reconstruct, kind, ih true starts, sameLast, sameClosing]
      | withdrawalCompleted =>
          simp only [inRunAfter, kind] at starts
          cases inRun <;> simp [reconstruct, kind, ih false starts]

/-- A message that goes on with a run changes the run's row and nothing else. -/
theorem reconstruct_append_of_continuation (inRun : Bool) (as : List Arrival) (b : Arrival)
    (withdrawal : b.message.kind ≠ .deposit) (continues : inRunAfter inRun as = true) :
    reconstruct inRun (as ++ [b]) =
      Store.changeFirst Order.isOpen (continued b.message) (reconstruct inRun as) := by
  induction as generalizing inRun with
  | nil =>
      simp only [inRunAfter] at continues
      subst continues
      cases kind : b.message.kind <;> simp_all [reconstruct, Store.changeFirst]
  | cons a as ih =>
      cases kind : a.message.kind with
      | deposit =>
          simp only [inRunAfter, kind] at continues
          simp [reconstruct, kind, Store.changeFirst, not_isOpen_depositRow, ih inRun continues]
      | withdrawalRequested =>
          simp only [inRunAfter, kind] at continues
          cases inRun with
          | true => simp [reconstruct, kind, ih true continues]
          | false =>
              simp only [List.cons_append, reconstruct, kind, ih true continues,
                lastOfRun_append, closing?_append]
              cases closed : closing? as with
              | some m => simp [Store.changeFirst, isOpen_withdrawalRow]
              | none =>
                  have settled := not_isOpen_of_closing?_none as closed
                  simp only [Store.changeFirst, isOpen_withdrawalRow, continued_withdrawalRow,
                    Store.changeFirst_of_none settled]
                  cases kind' : b.message.kind <;> simp_all
      | withdrawalCompleted =>
          simp only [inRunAfter, kind] at continues
          cases inRun with
          | true => simp [reconstruct, kind, ih false continues]
          | false =>
              simp [reconstruct, kind, Store.changeFirst, isOpen_withdrawalRow, ih false continues]

/-- A run by its first request and its last, or none, behind one more message. -/
def runStep (run : Option (Arrival × Message)) (a : Arrival) : Option (Arrival × Message) :=
  match a.message.kind with
  | .deposit => run
  | .withdrawalRequested => some ((run.map (·.1)).getD a, a.message)
  | .withdrawalCompleted => none

def openRun? (as : List Arrival) : Option (Arrival × Message) :=
  as.foldl runStep none

theorem openRun?_append (as : List Arrival) (b : Arrival) :
    openRun? (as ++ [b]) =
      match b.message.kind with
      | .deposit => openRun? as
      | .withdrawalRequested => some (((openRun? as).map (·.1)).getD b, b.message)
      | .withdrawalCompleted => none := by
  simp [openRun?, runStep]

theorem lastOfRun?_mem {as : List Arrival} {first : Arrival} {last : Message}
    (run : openRun? as = some (first, last)) : ∃ a ∈ as, a.message = last := by
  induction as using List.reverseRecOn with
  | nil => simp [openRun?] at run
  | append_singleton as b ih =>
      rw [openRun?_append] at run
      cases kind : b.message.kind with
      | deposit =>
          rw [kind] at run
          obtain ⟨a, member, same⟩ := ih run
          exact ⟨a, List.mem_append_left _ member, same⟩
      | withdrawalRequested =>
          rw [kind] at run
          obtain ⟨-, rfl⟩ := Prod.mk.inj (Option.some.inj run)
          exact ⟨b, by simp, rfl⟩
      | withdrawalCompleted => simp [kind] at run

theorem inRunAfter_append (inRun : Bool) (as : List Arrival) (b : Arrival) :
    inRunAfter inRun (as ++ [b]) =
      match b.message.kind with
      | .deposit => inRunAfter inRun as
      | .withdrawalRequested => true
      | .withdrawalCompleted => false := by
  induction as generalizing inRun with
  | nil => cases kind : b.message.kind <;> simp [inRunAfter, kind]
  | cons a as ih => cases kind : a.message.kind <;> simp [inRunAfter, kind, ih]

theorem inRunAfter_eq_isSome (as : List Arrival) : inRunAfter false as = (openRun? as).isSome := by
  induction as using List.reverseRecOn with
  | nil => rfl
  | append_singleton as b ih =>
      rw [inRunAfter_append, openRun?_append]
      cases b.message.kind with
      | deposit => exact ih
      | withdrawalRequested => rfl
      | withdrawalCompleted => rfl

/-- What one more message of the wallet does to its rows. -/
theorem reconstruct_append (as : List Arrival) (b : Arrival) :
    reconstruct false (as ++ [b]) =
      if b.message.kind ≠ .deposit ∧ (openRun? as).isSome = true then
        Store.changeFirst Order.isOpen (continued b.message) (reconstruct false as)
      else reconstruct false as ++ [startRow b] := by
  rw [← inRunAfter_eq_isSome]
  split
  · rename_i continues
    exact reconstruct_append_of_continuation false as b continues.1 continues.2
  · rename_i starts
    refine reconstruct_append_of_start false as b ?_
    rwa [ne_eq, not_and_or, not_not, Bool.not_eq_true] at starts

theorem filter_isOpen_reconstruct (as : List Arrival) :
    (reconstruct false as).filter Order.isOpen =
      ((openRun? as).map fun run => withdrawalRow run.1 run.2 none).toList := by
  induction as using List.reverseRecOn with
  | nil => rfl
  | append_singleton as b ih =>
      rw [reconstruct_append, openRun?_append]
      cases run : openRun? as with
      | none =>
          rw [run] at ih
          cases kind : b.message.kind <;>
            simp_all [startRow, isOpen_withdrawalRow, not_isOpen_depositRow]
      | some pair =>
          obtain ⟨first, last⟩ := pair
          rw [run] at ih
          have changed := Store.filter_changeFirst_of_single (f := continued b.message) ih
          rw [continued_withdrawalRow] at changed
          cases kind : b.message.kind <;>
            simp_all [startRow, isOpen_withdrawalRow, not_isOpen_depositRow]

theorem mem_of_openRun? {as : List Arrival} {first : Arrival} {last : Message}
    (run : openRun? as = some (first, last)) :
    withdrawalRow first last none ∈ reconstruct false as := by
  have rows := filter_isOpen_reconstruct as
  rw [run] at rows
  have member : withdrawalRow first last none ∈ (reconstruct false as).filter Order.isOpen := by
    rw [rows]
    exact List.mem_cons_self
  exact (List.mem_filter.mp member).1

theorem lastOfRun_mem (last : Message) (as : List Arrival) :
    lastOfRun last as = last ∨
      ∃ a ∈ as, lastOfRun last as = a.message ∧ a.message.kind = .withdrawalRequested := by
  induction as generalizing last with
  | nil => exact .inl rfl
  | cons a as ih =>
      cases kind : a.message.kind with
      | deposit =>
          simp only [lastOfRun, kind]
          rcases ih last with same | ⟨c, member, same⟩
          · exact .inl same
          · exact .inr ⟨c, List.mem_cons_of_mem a member, same⟩
      | withdrawalRequested =>
          simp only [lastOfRun, kind]
          rcases ih a.message with same | ⟨c, member, same⟩
          · exact .inr ⟨a, List.mem_cons_self, same, kind⟩
          · exact .inr ⟨c, List.mem_cons_of_mem a member, same⟩
      | withdrawalCompleted => exact .inl (by simp [lastOfRun, kind])

theorem origin_of_mem_reconstruct {inRun : Bool} {as : List Arrival} {o : Order}
    (member : o ∈ reconstruct inRun as) :
    ∃ a ∈ as, o.id = a.fresh ∧ o.wallet = a.message.wallet := by
  induction as generalizing inRun with
  | nil => simp [reconstruct] at member
  | cons a as ih =>
      have later {r : Bool} (member : o ∈ reconstruct r as) :
          ∃ c ∈ a :: as, o.id = c.fresh ∧ o.wallet = c.message.wallet := by
        obtain ⟨c, among, same⟩ := ih member
        exact ⟨c, List.mem_cons_of_mem a among, same⟩
      cases kind : a.message.kind <;> cases inRun <;>
        simp only [reconstruct, kind, List.mem_cons] at member
      case withdrawalRequested.true | withdrawalCompleted.true => exact later member
      all_goals
        rcases member with rfl | member
        · exact ⟨a, List.mem_cons_self, rfl, rfl⟩
        · exact later member

theorem map_id_reconstruct_sublist (inRun : Bool) (as : List Arrival) :
    ((reconstruct inRun as).map (·.id)).Sublist (as.map (·.fresh)) := by
  induction as generalizing inRun with
  | nil => simp [reconstruct]
  | cons a as ih =>
      cases kind : a.message.kind <;> cases inRun <;> simp only [reconstruct, kind]
      case withdrawalRequested.true | withdrawalCompleted.true => exact (ih _).cons _
      all_goals exact (ih _).cons_cons a.fresh

/-- A row under the key of a fulfilment is one that the fulfilment has completed. -/
theorem key_of_mem_reconstruct {inRun : Bool} {as : List Arrival} {o : Order}
    (member : o ∈ reconstruct inRun as) :
    ∃ a ∈ as, o.key = a.message.key ∧
      (a.message.kind = .withdrawalCompleted → o.isCompletedBy a.message.key = true) := by
  induction as generalizing inRun with
  | nil => simp [reconstruct] at member
  | cons a as ih =>
      have later {r : Bool} (member : o ∈ reconstruct r as) :
          ∃ c ∈ a :: as, o.key = c.message.key ∧
            (c.message.kind = .withdrawalCompleted → o.isCompletedBy c.message.key = true) := by
        obtain ⟨c, among, same⟩ := ih member
        exact ⟨c, List.mem_cons_of_mem a among, same⟩
      cases kind : a.message.kind <;> cases inRun <;>
        simp only [reconstruct, kind, List.mem_cons] at member
      case withdrawalRequested.true | withdrawalCompleted.true => exact later member
      case withdrawalRequested.false =>
        rcases member with rfl | member
        · rcases lastOfRun_mem a.message as with same | ⟨c, among, same, request⟩
          · refine ⟨a, List.mem_cons_self, ?_, by simp [kind]⟩
            simp [withdrawalRow, Order.key, Message.key, same]
          · refine ⟨c, List.mem_cons_of_mem a among, ?_, by simp [request]⟩
            simp [withdrawalRow, Order.key, Message.key, same]
        · exact later member
      case withdrawalCompleted.false =>
        rcases member with rfl | member
        · exact ⟨a, List.mem_cons_self, rfl,
            fun _ => by simp [Order.isCompletedBy, withdrawalRow, Message.key]⟩
        · exact later member
      all_goals
        rcases member with rfl | member
        · exact ⟨a, List.mem_cons_self, rfl, by simp [kind]⟩
        · exact later member

theorem key_startRow (b : Arrival) : (startRow b).key = b.message.key := by
  unfold startRow
  cases b.message.kind <;> rfl

theorem key_continued (m : Message) (o : Order) :
    (continued m o).key = if m.kind = .withdrawalRequested then m.key else o.key := by
  unfold continued
  cases m.kind <;> rfl

theorem key_of_mem_reconstruct_append {as : List Arrival} {b : Arrival} {o : Order}
    (member : o ∈ reconstruct false (as ++ [b])) :
    o.key = b.message.key ∨ ∃ p ∈ reconstruct false as, p.key = o.key := by
  rw [reconstruct_append] at member
  split at member
  · rcases Store.mem_of_mem_changeFirst member with kept | ⟨p, among, _, rfl⟩
    · exact .inr ⟨o, kept, rfl⟩
    · rw [key_continued]
      split
      · exact .inl rfl
      · exact .inr ⟨p, among, rfl⟩
  · rcases List.mem_append.mp member with kept | added
    · exact .inr ⟨o, kept, rfl⟩
    · rw [List.mem_singleton.mp added]
      exact .inl (key_startRow b)

theorem nodup_keys_reconstruct (as : List Arrival)
    (distinct : (as.map (·.message.key)).Nodup) :
    ((reconstruct false as).map (·.key)).Nodup := by
  induction as using List.reverseRecOn with
  | nil => simp [reconstruct]
  | append_singleton as b ih =>
      rw [List.map_append, List.nodup_append] at distinct
      obtain ⟨before, _, apart⟩ := distinct
      have fresh : ∀ o ∈ reconstruct false as, o.key ≠ b.message.key := by
        intro o member same
        obtain ⟨a, among, key, -⟩ := key_of_mem_reconstruct member
        exact apart _ (List.mem_map_of_mem among) _ List.mem_cons_self (key.symm.trans same)
      rw [reconstruct_append]
      split
      · rename_i continues
        cases kind : b.message.kind with
        | deposit => exact absurd kind continues.1
        | withdrawalRequested =>
            refine Store.nodup_map_changeFirst (ih before) ?_
            intro o _ _ p member
            rw [key_continued, kind, if_pos rfl]
            exact fresh p member
        | withdrawalCompleted =>
            rw [Store.map_changeFirst]
            · exact ih before
            · intro o _
              rw [key_continued, kind, if_neg (by decide)]
      · rw [List.map_append, List.nodup_append]
        refine ⟨ih before, by simp, ?_⟩
        intro k member k' added
        obtain ⟨o, among, rfl⟩ := List.mem_map.mp member
        rw [List.map_singleton, List.mem_singleton, key_startRow] at added
        rw [added]
        exact fresh o among

theorem mem_reconstruct_append {as : List Arrival} {o : Order} (bs : List Arrival)
    (member : o ∈ reconstruct false as) (settled : o.isOpen = false) :
    o ∈ reconstruct false (as ++ bs) := by
  induction bs generalizing as with
  | nil => simpa using member
  | cons b bs ih =>
      rw [List.append_cons]
      apply ih
      rw [reconstruct_append]
      split
      · exact Store.mem_changeFirst_of_not member settled
      · exact List.mem_append_left _ member

theorem key_not_mem_reconstruct_append {as : List Arrival} {k : EventKey} (bs : List Arrival)
    (absent : ∀ o ∈ reconstruct false as, o.key ≠ k) (apart : ∀ b ∈ bs, b.message.key ≠ k) :
    ∀ o ∈ reconstruct false (as ++ bs), o.key ≠ k := by
  induction bs generalizing as with
  | nil => simpa using absent
  | cons b bs ih =>
      rw [List.append_cons]
      apply ih
      · intro o member same
        rcases key_of_mem_reconstruct_append member with new | ⟨p, among, kept⟩
        · exact apart b List.mem_cons_self (new.symm.trans same)
        · exact absent p among (kept.trans same)
      · exact fun c member => apart c (List.mem_cons_of_mem b member)

end Materialize

end VaultTransfers
