import VaultTransfers.Pipeline.Materialize
import VaultTransfers.Proofs.Program.Runs

/-!
What applying a message comes to, read off the table of orders at once. The
program asks its questions one by one and writes at most once, at its end; the
verdict is that write together with what the program then answers. Nothing is
said here about which tables can come about.
-/

namespace VaultTransfers.Materialize

/-- A message, with the identity at hand for an order that it may make. -/
structure Arrival where
  fresh : OrderId
  message : Message

def applyTo (a : Arrival) : StateM OrderTable (Except Fault Applied) :=
  Program.interpret OrderTable.answer (apply a.fresh a.message).run

/-- Applies messages one after the other; one that fails does not stop those behind it. -/
def applyAll : List Arrival → StateM OrderTable (List (Except Fault Applied))
  | [] => return []
  | a :: as => do
    let r ← applyTo a
    return r :: (← applyAll as)

/-- What an application ends with: its answer and, before it, at most one write. -/
structure Verdict where
  applied : Applied
  write : Option OrderTable.Call

def depositVerdict (a : Arrival) : Verdict :=
  ⟨.depositRecorded, some (.upsert (orderOf a.fresh a.message .deposit .completed none))⟩

/-- The open withdrawal that a request is about. -/
def openIn (table : OrderTable) (m : Message) : Option Order :=
  (table.openOfAmount m.wallet m.amount).or (table.openOf m.wallet)

def requestVerdict (a : Arrival) (estimate : Option String) (table : OrderTable) : Verdict :=
  match table.byKey a.message.key with
  | some known =>
    if known.status = .completed then ⟨.requestIgnored, none⟩
    else ⟨.requestRevised, some (.update (revised known a.message estimate))⟩
  | none =>
    match openIn table a.message with
    | some o =>
      if a.message.position.before o.position then ⟨.requestIgnored, none⟩
      else ⟨.requestRevised, some (.update (revised o a.message estimate))⟩
    | none =>
      ⟨.requestOpened, some (.upsert (orderOf a.fresh a.message .withdrawal .inProgress estimate))⟩

def fulfilmentVerdict (a : Arrival) (table : OrderTable) : Verdict :=
  if (table.byCompletion a.message.key).isSome || (table.byKey a.message.key).isSome then
    ⟨.completionIgnored, none⟩
  else match table.openOf a.message.wallet with
    | some o => ⟨.withdrawalCompleted, some (.update (closed o a.message))⟩
    | none =>
      ⟨.completionRecorded,
        some (.upsert (closed (orderOf a.fresh a.message .withdrawal .completed none) a.message))⟩

/-- The verdict on a message, or why there is none. -/
def verdict (a : Arrival) (table : OrderTable) : Except Fault Verdict :=
  match a.message.payload with
  | .error fault => .error (.malformed (.shape fault))
  | .ok (.deposit _) => .ok (depositVerdict a)
  | .ok (.withdrawalRequested request) =>
    match Amount.estimate a.message.amount request.minPrice with
    | .error fault => .error (.amount a.message.key fault)
    | .ok estimate => .ok (requestVerdict a estimate table)
  | .ok (.withdrawalCompleted _) => .ok (fulfilmentVerdict a table)

def Verdict.carryOut (v : Verdict) (table : OrderTable) : Except Fault Applied × OrderTable :=
  match v.write with
  | none => (.ok v.applied, table)
  | some c =>
    match OrderTable.answer c table with
    | (.ok _, after) => (.ok v.applied, after)
    | (.error fault, after) => (.error (.store fault), after)

def settle (a : Arrival) (table : OrderTable) : Except Fault Applied × OrderTable :=
  match verdict a table with
  | .error fault => (.error fault, table)
  | .ok v => v.carryOut table

/-- The table in memory, where calls may also fail and then do nothing; `fails` says with what. -/
def answers (fails : OrderTable.Call → StoreFault → Prop) :
    Service OrderTable.interface OrderTable := fun c table reply after =>
  (reply, after) = OrderTable.answer c table ∨
    ∃ fault, fails c fault ∧ reply = .error fault ∧ after = table

/-- An application that a failing call has ended; it has left the table alone. -/
def Broken (fails : OrderTable.Call → StoreFault → Prop) (table : OrderTable)
    (result : Except Fault Applied) (after : OrderTable) : Prop :=
  ∃ c fault, fails c fault ∧ result = .error (.store fault) ∧ after = table

section

variable {fails : OrderTable.Call → StoreFault → Prop} {table after : OrderTable}

theorem runs_ask_bind {α : Type} {c : OrderTable.Call} {next : OrderTable.Value c → Task α}
    {b : Except Fault α} :
    Program.Runs (answers fails) (ask c >>= next).run table b after ↔
      ∃ reply u, answers fails c table reply u ∧
        match reply with
        | .ok a => Program.Runs (answers fails) (next a).run u b after
        | .error fault => b = .error (.store fault) ∧ after = u := by
  constructor
  · rintro ⟨reply, u, answered, run⟩
    refine ⟨reply, u, answered, ?_⟩
    cases reply with
    | ok a => exact run
    | error fault => exact run
  · rintro ⟨reply, u, answered, run⟩
    refine ⟨reply, u, answered, ?_⟩
    cases reply with
    | ok a => exact run
    | error fault => exact run

theorem Runs.read {α : Type} {c : OrderTable.Call} {v : OrderTable.Value c}
    {next : OrderTable.Value c → Task α} {b : Except Fault α}
    (answered : OrderTable.answer c table = (.ok v, table))
    (run : Program.Runs (answers fails) (ask c >>= next).run table b after) :
    Program.Runs (answers fails) (next v).run table b after ∨
      ∃ fault, fails c fault ∧ b = .error (.store fault) ∧ after = table := by
  obtain ⟨reply, u, served | ⟨fault, failing, rfl, rfl⟩, rest⟩ := runs_ask_bind.mp run
  · rw [answered] at served
    cases served
    exact .inl rest
  · exact .inr ⟨fault, failing, rest⟩

theorem Runs.write {c : OrderTable.Call} {applied : Applied} {r : Except Fault Applied}
    (run : Program.Runs (answers fails) (ask c >>= fun _ => pure applied).run table r after) :
    (r, after) = (Verdict.mk applied (some c)).carryOut table ∨ Broken fails table r after := by
  obtain ⟨reply, u, served | ⟨fault, failing, rfl, rfl⟩, rest⟩ := runs_ask_bind.mp run
  · refine .inl ?_
    unfold Verdict.carryOut
    simp only [← served]
    cases reply with
    | ok _ =>
        obtain ⟨rfl, rfl⟩ := rest
        rfl
    | error fault =>
        obtain ⟨rfl, rfl⟩ := rest
        rfl
  · exact .inr ⟨c, fault, failing, rest⟩

theorem runs_applyDeposit {a : Arrival} {r : Except Fault Applied}
    (run : Program.Runs (answers fails) (applyDeposit a.fresh a.message).run table r after) :
    (r, after) = (depositVerdict a).carryOut table ∨ Broken fails table r after :=
  Runs.write run

theorem runs_openFor {α : Type} {m : Message} {next : Option Order → Task α} {b : Except Fault α}
    (run : Program.Runs (answers fails) (openFor m >>= next).run table b after) :
    Program.Runs (answers fails) (next (openIn table m)).run table b after ∨
      ∃ c fault, fails c fault ∧ b = .error (.store fault) ∧ after = table := by
  unfold openFor at run
  rw [bind_assoc] at run
  obtain run | broken := Runs.read (c := .openOfAmount m.wallet m.amount) rfl run
  · cases found : table.openOfAmount m.wallet m.amount with
    | some o =>
        rw [found] at run
        refine .inl ?_
        rw [openIn, found]
        exact run
    | none =>
        rw [found] at run
        obtain run | broken := Runs.read (c := .openOf m.wallet) rfl run
        · refine .inl ?_
          rw [openIn, found]
          exact run
        · exact .inr ⟨_, broken⟩
  · exact .inr ⟨_, broken⟩

theorem runs_applyRequest {a : Arrival} {request : WithdrawalRequest} {estimate : Option String}
    {r : Except Fault Applied}
    (computed : Amount.estimate a.message.amount request.minPrice = .ok estimate)
    (run : Program.Runs (answers fails) (applyRequest a.fresh a.message request).run table r after) :
    (r, after) = (requestVerdict a estimate table).carryOut table ∨ Broken fails table r after := by
  unfold applyRequest at run
  simp only [computed] at run
  unfold requestVerdict
  obtain run | broken := Runs.read (c := .byKey a.message.key) rfl run
  · cases known : table.byKey a.message.key with
    | some o =>
        simp only [known] at run ⊢
        split at run
        · rename_i completed
          obtain ⟨rfl, rfl⟩ := run
          simp [completed, Verdict.carryOut]
        · rename_i completed
          simpa [completed] using Runs.write run
    | none =>
        simp only [known] at run ⊢
        obtain run | broken := runs_openFor run
        · cases open' : openIn table a.message with
          | some o =>
              simp only [open'] at run ⊢
              split at run
              · rename_i older
                obtain ⟨rfl, rfl⟩ := run
                simp [older, Verdict.carryOut]
              · rename_i older
                simpa [older] using Runs.write run
          | none =>
              simp only [open'] at run ⊢
              exact Runs.write run
        · exact .inr broken
  · exact .inr ⟨_, broken⟩

theorem runs_applyFulfilment {a : Arrival} {r : Except Fault Applied}
    (run : Program.Runs (answers fails) (applyFulfilment a.fresh a.message).run table r after) :
    (r, after) = (fulfilmentVerdict a table).carryOut table ∨ Broken fails table r after := by
  unfold applyFulfilment isDealtWith at run
  rw [bind_assoc] at run
  unfold fulfilmentVerdict
  obtain run | broken := Runs.read (c := .byCompletion a.message.key) rfl run
  · split at run
    · rename_i dealt
      obtain ⟨rfl, rfl⟩ := run
      simp [dealt, Verdict.carryOut]
    · rename_i dealt
      rw [bind_assoc] at run
      obtain run | broken := Runs.read (c := .byKey a.message.key) rfl run
      · rw [pure_bind] at run
        split at run
        · rename_i known
          obtain ⟨rfl, rfl⟩ := run
          simp [known, Verdict.carryOut]
        · rename_i known
          obtain run | broken := Runs.read (c := .openOf a.message.wallet) rfl run
          · simp only [dealt, known, Bool.or_self, Bool.false_eq_true, if_false]
            cases open' : table.openOf a.message.wallet with
            | some o =>
                rw [open'] at run
                exact Runs.write run
            | none =>
                rw [open'] at run
                exact Runs.write run
          · exact .inr ⟨_, broken⟩
      · exact .inr ⟨_, broken⟩
  · exact .inr ⟨_, broken⟩

/-- A run of an application carries its verdict out, or is broken off with the table as it was. -/
theorem runs_apply {a : Arrival} {r : Except Fault Applied}
    (run : Program.Runs (answers fails) (apply a.fresh a.message).run table r after) :
    (r, after) = settle a table ∨ Broken fails table r after := by
  unfold apply at run
  unfold settle verdict
  cases read : a.message.payload with
  | error fault =>
      simp only [read] at run
      obtain ⟨rfl, rfl⟩ := run
      exact .inl rfl
  | ok payload =>
      simp only [read] at run
      cases payload with
      | deposit _ => exact runs_applyDeposit run
      | withdrawalRequested request =>
          cases computed : Amount.estimate a.message.amount request.minPrice with
          | error fault =>
              simp only [applyRequest, computed] at run
              obtain ⟨rfl, rfl⟩ := run
              refine .inl ?_
              simp only [computed]
          | ok estimate =>
              simp only [computed]
              exact runs_applyRequest computed run
      | withdrawalCompleted _ => exact runs_applyFulfilment run

end

theorem snd_answer_of_error {c : OrderTable.Call} {table after : OrderTable} {fault : StoreFault}
    (answered : OrderTable.answer c table = (.error fault, after)) : after = table := by
  have written : ∀ orders, table.write orders = (.error fault, after) → after = table := by
    intro orders same
    have unchanged := OrderTable.snd_write_of_error (congrArg Prod.fst same)
    rw [same] at unchanged
    exact unchanged
  cases c with
  | upsert o => exact written _ answered
  | update o => exact written _ answered
  | byKey k => cases answered
  | byCompletion k => cases answered
  | openOf wallet => cases answered
  | openOfAmount wallet amount => cases answered
  | byTransaction txHash => cases answered

theorem snd_settle_of_error {a : Arrival} {table after : OrderTable} {fault : Fault}
    (settled : settle a table = (.error fault, after)) : after = table := by
  unfold settle at settled
  cases found : verdict a table with
  | error fault' =>
      rw [found] at settled
      exact (congrArg Prod.snd settled).symm
  | ok v =>
      rw [found] at settled
      obtain ⟨applied, write⟩ := v
      cases write with
      | none => cases settled
      | some c =>
          obtain ⟨reply, u, answered⟩ : ∃ reply u, OrderTable.answer c table = (reply, u) :=
            ⟨_, _, rfl⟩
          simp only [Verdict.carryOut, answered] at settled
          cases reply with
          | ok _ => cases settled
          | error fault' =>
              obtain rfl : u = after := congrArg Prod.snd settled
              exact snd_answer_of_error answered

/-- In memory nothing fails, and the verdict is all there is to an application. -/
theorem applyTo_eq_settle (a : Arrival) (table : OrderTable) : applyTo a table = settle a table := by
  have admitted (c : OrderTable.Call) (s : OrderTable) :
      answers (fun _ _ => False) c s (OrderTable.answer c s).1 (OrderTable.answer c s).2 := .inl rfl
  have run : Program.Runs (answers fun _ _ => False) (apply a.fresh a.message).run table
      (applyTo a table).1 (applyTo a table).2 :=
    @Program.runs_interpret OrderTable.interface _ OrderTable OrderTable _ id OrderTable.answer
      admitted (apply a.fresh a.message).run table
  obtain settled | ⟨c, fault, failing, rest⟩ := runs_apply run
  · exact settled
  · exact failing.elim

end VaultTransfers.Materialize
