import VaultTransfers.Proofs.Orders.Verdict

/-!
Streams of messages on a table of orders whose calls may fail. A message that is
not taken leaves the table alone and does not stop those behind it. Nothing is
asked of the stream: what it may consist of, and which calls fail, is left to
the statements about it.
-/

namespace VaultTransfers.Materialize

open Program (Runs)

/-- Applies messages one after the other, each as far as it gets. -/
def applyEach : List Arrival → Program OrderTable.interface (List (Except Fault Applied))
  | [] => return []
  | a :: as => do
    let r ← (apply a.fresh a.message).run
    return r :: (← applyEach as)

variable {fails : OrderTable.Call → StoreFault → Prop} {table after : OrderTable}
  {results : List (Except Fault Applied)}

theorem runs_applyEach_cons {a : Arrival} {as : List Arrival} :
    Runs (answers fails) (applyEach (a :: as)) table results after ↔
      ∃ r next rest, Runs (answers fails) (apply a.fresh a.message).run table r next ∧
        Runs (answers fails) (applyEach as) next rest after ∧ results = r :: rest := by
  constructor
  · intro run
    obtain ⟨r, next, first, run⟩ := Program.runs_bind_iff.mp run
    obtain ⟨rest, last, second, rfl, rfl⟩ := Program.runs_bind_iff.mp run
    exact ⟨r, next, rest, first, second, rfl⟩
  · rintro ⟨r, next, rest, first, second, rfl⟩
    exact Program.runs_bind_iff.mpr
      ⟨r, next, first, Program.runs_bind_iff.mpr ⟨rest, after, second, rfl, rfl⟩⟩

/-- A stream may also go through without a failure. -/
theorem runs_interpret_applyEach (as : List Arrival) (table : OrderTable) :
    Runs (answers fails) (applyEach as) table
      (Program.interpret OrderTable.answer (applyEach as) table).1
      (Program.interpret OrderTable.answer (applyEach as) table).2 :=
  @Program.runs_interpret OrderTable.interface _ OrderTable OrderTable _ id OrderTable.answer
    (fun _ _ => .inl rfl) (applyEach as) table

theorem runs_applyTo (a : Arrival) (table : OrderTable) :
    Runs (answers fails) (apply a.fresh a.message).run table (applyTo a table).1
      (applyTo a table).2 :=
  @Program.runs_interpret OrderTable.interface _ OrderTable OrderTable _ id OrderTable.answer
    (fun _ _ => .inl rfl) (apply a.fresh a.message).run table

theorem runs_applyAll (as : List Arrival) (table : OrderTable) :
    Runs (answers fails) (applyEach as) table (applyAll as table).1 (applyAll as table).2 := by
  induction as generalizing table with
  | nil => exact ⟨rfl, rfl⟩
  | cons a as ih =>
      exact runs_applyEach_cons.mpr ⟨_, _, _, runs_applyTo a table, ih (applyTo a table).2, rfl⟩

/-- What each message of a stream keeps, after those before it, holds behind the stream. -/
theorem applyEach_induction {all : List Arrival} {holds : List Arrival → OrderTable → Prop}
    {answered : Except Fault Applied → Prop}
    (step : ∀ before a later table r after, all = before ++ a :: later → holds before table →
      Runs (answers fails) (apply a.fresh a.message).run table r after →
        holds (before ++ [a]) after ∧ answered r)
    {before rest : List Arrival} (whole : all = before ++ rest) (start : holds before table)
    (run : Runs (answers fails) (applyEach rest) table results after) :
    holds all after ∧ ∀ r ∈ results, answered r := by
  induction rest generalizing before table results with
  | nil =>
      obtain ⟨rfl, rfl⟩ := run
      rw [List.append_nil] at whole
      exact ⟨whole ▸ start, by simp⟩
  | cons a as ih =>
      obtain ⟨r, next, others, first, second, rfl⟩ := runs_applyEach_cons.mp run
      obtain ⟨held, told⟩ := step before a as table r next whole start first
      rw [List.append_cons] at whole
      obtain ⟨final, all⟩ := ih whole held second
      refine ⟨final, ?_⟩
      intro r' member
      rcases List.mem_cons.mp member with rfl | later
      · exact told
      · exact all r' later

theorem applyEach_keeps (holds : List Arrival → OrderTable → Prop) {all before rest : List Arrival}
    (step : ∀ before a later table r after, all = before ++ a :: later → holds before table →
      Runs (answers fails) (apply a.fresh a.message).run table r after → holds (before ++ [a]) after)
    (whole : all = before ++ rest) (start : holds before table)
    (run : Runs (answers fails) (applyEach rest) table results after) : holds all after := by
  have kept : holds all after ∧ ∀ r ∈ results, True := by
    refine applyEach_induction ?_ whole start run
    intro before a later table r after whole held run
    exact ⟨step before a later table r after whole held run, trivial⟩
  exact kept.1

end VaultTransfers.Materialize
