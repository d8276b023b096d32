import Mathlib.Data.List.Nodup
import VaultTransfers.Proofs.Orders.Reconstruction

/-!
What each message of a wallet has come to in the rows of all of them. A deposit
and a fulfilment keep a row that names them. A request does so as long as it is
the last of its run; one that another request has superseded is named by no row.
-/

namespace VaultTransfers.Materialize

def nextWithdrawal? : List Arrival → Option Message
  | [] => none
  | a :: as =>
    match a.message.kind with
    | .deposit => nextWithdrawal? as
    | .withdrawalRequested | .withdrawalCompleted => some a.message

/-- A request that is followed by another before any fulfilment; `later` are the messages behind
it. -/
def IsSuperseded (m : Message) (later : List Arrival) : Prop :=
  m.kind = .withdrawalRequested ∧
    ∃ next, nextWithdrawal? later = some next ∧ next.kind = .withdrawalRequested

theorem deposits_of_nextWithdrawal?_none {as : List Arrival} (none_ : nextWithdrawal? as = none) :
    ∀ a ∈ as, a.message.kind = .deposit := by
  induction as with
  | nil => simp
  | cons a as ih =>
      cases kind : a.message.kind <;> simp only [nextWithdrawal?, kind] at none_
      case deposit =>
        intro c member
        rcases List.mem_cons.mp member with rfl | later
        · exact kind
        · exact ih none_ c later
      all_goals simp at none_

theorem split_of_nextWithdrawal?_some {as : List Arrival} {m : Message}
    (some_ : nextWithdrawal? as = some m) :
    ∃ deposits a later, as = deposits ++ a :: later ∧ a.message = m ∧
      (∀ d ∈ deposits, d.message.kind = .deposit) ∧ m.kind ≠ .deposit := by
  induction as with
  | nil => simp [nextWithdrawal?] at some_
  | cons a as ih =>
      cases kind : a.message.kind <;> simp only [nextWithdrawal?, kind, Option.some.injEq] at some_
      case deposit =>
        obtain ⟨deposits, c, later, rfl, same, paid, withdrawal⟩ := ih some_
        refine ⟨a :: deposits, c, later, rfl, same, ?_, withdrawal⟩
        intro d member
        rcases List.mem_cons.mp member with rfl | later
        · exact kind
        · exact paid d later
      all_goals exact ⟨[], a, as, rfl, some_, by simp, by simp [← some_, kind]⟩

theorem runStep_of_deposits {deposits : List Arrival} (run : Option (Arrival × Message))
    (paid : ∀ d ∈ deposits, d.message.kind = .deposit) : deposits.foldl runStep run = run := by
  induction deposits with
  | nil => rfl
  | cons d ds ih =>
      rw [List.foldl_cons, runStep, paid d List.mem_cons_self]
      exact ih fun c member => paid c (List.mem_cons_of_mem d member)

theorem last_foldl_runStep (as : List Arrival) {run run' : Option (Arrival × Message)}
    (alike : run.map (·.2) = run'.map (·.2)) :
    (as.foldl runStep run).map (·.2) = (as.foldl runStep run').map (·.2) := by
  induction as generalizing run run' with
  | nil => exact alike
  | cons a as ih =>
      rw [List.foldl_cons, List.foldl_cons]
      apply ih
      unfold runStep
      cases a.message.kind with
      | deposit => exact alike
      | withdrawalRequested => rfl
      | withdrawalCompleted => rfl

theorem last_openRun?_append (as : List Arrival) {bs : List Arrival} {m : Message}
    (next : nextWithdrawal? bs = some m) :
    (openRun? (as ++ bs)).map (·.2) = (openRun? bs).map (·.2) := by
  obtain ⟨deposits, c, rest, rfl, rfl, paid, withdrawal⟩ := split_of_nextWithdrawal?_some next
  rw [openRun?, openRun?, List.foldl_append, List.foldl_append, List.foldl_append,
    runStep_of_deposits _ paid, runStep_of_deposits _ paid, List.foldl_cons, List.foldl_cons]
  apply last_foldl_runStep
  unfold runStep
  cases kind : c.message.kind with
  | deposit => exact absurd kind withdrawal
  | withdrawalRequested => rfl
  | withdrawalCompleted => rfl

theorem openRun?_append_deposits (as deposits : List Arrival)
    (paid : ∀ d ∈ deposits, d.message.kind = .deposit) :
    openRun? (as ++ deposits) = openRun? as := by
  rw [openRun?, List.foldl_append, runStep_of_deposits _ paid]
  rfl

theorem openRun?_of_request (as deposits : List Arrival) {a : Arrival}
    (request : a.message.kind = .withdrawalRequested)
    (paid : ∀ d ∈ deposits, d.message.kind = .deposit) :
    ∃ first, openRun? (as ++ a :: deposits) = some (first, a.message) := by
  rw [List.append_cons, openRun?_append_deposits _ _ paid, openRun?_append, request]
  exact ⟨_, rfl⟩

/-- With an open run, one more message about a withdrawal changes its row and nothing else. -/
theorem mem_reconstruct_append_of_openRun? {as : List Arrival} {b : Arrival} {first : Arrival}
    {last : Message} {o : Order} (run : openRun? as = some (first, last))
    (withdrawal : b.message.kind ≠ .deposit) :
    o ∈ reconstruct false (as ++ [b]) ↔
      o = continued b.message (withdrawalRow first last none) ∨
        o ∈ reconstruct false as ∧ o.isOpen = false := by
  have rows := filter_isOpen_reconstruct as
  rw [run] at rows
  rw [reconstruct_append, if_pos ⟨withdrawal, by simp [run]⟩]
  exact Store.mem_changeFirst_iff_of_single rows

theorem depositRow_mem_reconstruct {inRun : Bool} {as : List Arrival} {a : Arrival}
    (member : a ∈ as) (deposit : a.message.kind = .deposit) :
    depositRow a ∈ reconstruct inRun as := by
  induction as generalizing inRun with
  | nil => simp at member
  | cons c as ih =>
      rcases List.mem_cons.mp member with rfl | later
      · simp [reconstruct, deposit]
      · cases kind : c.message.kind <;> cases inRun <;> simp [reconstruct, kind, ih later]

theorem exists_isCompletedBy {as : List Arrival} {a : Arrival} (member : a ∈ as)
    (fulfilment : a.message.kind = .withdrawalCompleted) :
    ∃ o ∈ reconstruct false as, o.isCompletedBy a.message.key = true := by
  obtain ⟨before, later, rfl⟩ := List.append_of_mem member
  have settled : ∃ o ∈ reconstruct false (before ++ [a]),
      o.isCompletedBy a.message.key = true ∧ o.isOpen = false := by
    cases run : openRun? before with
    | some pair =>
        obtain ⟨first, last⟩ := pair
        refine ⟨withdrawalRow first last (some a.message), ?_, ?_, rfl⟩
        · refine (mem_reconstruct_append_of_openRun? run (by simp [fulfilment])).mpr (.inl ?_)
          rw [continued_withdrawalRow, fulfilment]
        · simp [Order.isCompletedBy, withdrawalRow, Message.key]
    | none =>
        refine ⟨withdrawalRow a a.message (some a.message), ?_, ?_, rfl⟩
        · rw [reconstruct_append, if_neg (by simp [run]), startRow, fulfilment]
          exact List.mem_append_right _ List.mem_cons_self
        · simp [Order.isCompletedBy, withdrawalRow, Message.key]
  obtain ⟨o, among, completed, closed⟩ := settled
  refine ⟨o, ?_, completed⟩
  rw [List.append_cons]
  exact mem_reconstruct_append later among closed

theorem openRun?_of_last (before : List Arrival) {later : List Arrival} {a : Arrival}
    (request : a.message.kind = .withdrawalRequested) (last : nextWithdrawal? later = none) :
    ∃ first, openRun? (before ++ a :: later) = some (first, a.message) :=
  openRun?_of_request before later request (deposits_of_nextWithdrawal?_none last)

/-- A request that is fulfilled next keeps the row that its fulfilment has completed. -/
theorem exists_completed_of_fulfilled (before : List Arrival) {later : List Arrival} {a : Arrival}
    {m : Message}
    (request : a.message.kind = .withdrawalRequested) (next : nextWithdrawal? later = some m)
    (fulfilment : m.kind = .withdrawalCompleted) :
    ∃ o ∈ reconstruct false (before ++ a :: later),
      o.key = a.message.key ∧ o.status = .completed := by
  obtain ⟨deposits, c, rest, rfl, rfl, paid, withdrawal⟩ := split_of_nextWithdrawal?_some next
  obtain ⟨first, run⟩ := openRun?_of_request before deposits request paid
  have closed : withdrawalRow first a.message (some c.message) ∈
      reconstruct false (before ++ a :: deposits ++ [c]) := by
    refine (mem_reconstruct_append_of_openRun? run withdrawal).mpr (.inl ?_)
    rw [continued_withdrawalRow, fulfilment]
  refine ⟨withdrawalRow first a.message (some c.message), ?_, rfl, rfl⟩
  have kept := mem_reconstruct_append rest closed rfl
  simpa using kept

/-- A superseded request is named by no row any more. -/
theorem key_not_mem_of_superseded {before later : List Arrival} {a : Arrival}
    (distinct : ((before ++ a :: later).map (·.message.key)).Nodup)
    (superseded : IsSuperseded a.message later) :
    ∀ o ∈ reconstruct false (before ++ a :: later), o.key ≠ a.message.key := by
  obtain ⟨request, next, found, again⟩ := superseded
  obtain ⟨deposits, c, rest, rfl, rfl, paid, withdrawal⟩ := split_of_nextWithdrawal?_some found
  obtain ⟨first, run⟩ := openRun?_of_request before deposits request paid
  have regroup : before ++ a :: (deposits ++ c :: rest) = before ++ a :: deposits ++ [c] ++ rest := by
    simp
  rw [regroup] at distinct ⊢
  rw [List.map_append, List.nodup_append] at distinct
  obtain ⟨upToC, _, apart⟩ := distinct
  refine key_not_mem_reconstruct_append rest ?_ ?_
  · rw [List.map_append, List.nodup_append] at upToC
    obtain ⟨upToA, _, apartC⟩ := upToC
    intro o member same
    rcases (mem_reconstruct_append_of_openRun? run withdrawal).mp member with rfl | ⟨kept, settled⟩
    · rw [key_continued, if_pos again] at same
      exact apartC _ (List.mem_map_of_mem (a := a) (by simp)) _ List.mem_cons_self same.symm
    · -- keys are unique, so only the open row could have had the request's key
      have unique := nodup_keys_reconstruct _ upToA
      have isRow := List.inj_on_of_nodup_map unique kept (mem_of_openRun? run) same
      rw [isRow, isOpen_withdrawalRow] at settled
      simp at settled
  · intro b member same
    exact apart _ (List.mem_map_of_mem (a := a) (by simp)) _ (List.mem_map_of_mem member) same.symm

end VaultTransfers.Materialize
