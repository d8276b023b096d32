import VaultTransfers.Proofs.Consume.Turn
import VaultTransfers.Proofs.Orders.Change
import VaultTransfers.Proofs.Transfer.Quote

/-!
Which messages the consumer gets past. Whatever has come before, the message of
a log that means an event is applied, and the turn that reads it goes on behind
it; the one exception is a request whose quote is no number of 256 bits. Such a
request is refused each time that it is read, and nothing changes.
-/

namespace VaultTransfers

/-- The log is a request whose quote is no number of 256 bits. -/
def Log.Overquoted (log : Log) (decoded : DecodedLog) : Prop :=
  decoded.payload.kind = .withdrawalRequested ∧ Amount.bound ≤ log.quoted

namespace Materialize

section

variable {contracts : Contracts} {log : Log} {decoded : DecodedLog} {date published : Instant}

theorem isSound_of_resolve (resolved : log.resolve contracts = .ok (.event decoded))
    (fits : ¬ log.Overquoted decoded) :
    (Message.ofEvent (log.toEvent decoded date) published).IsSound := by
  rw [Message.IsSound, Message.payload_ofEvent]
  cases payload : decoded.payload with
  | deposit fields =>
      have read : (log.toEvent decoded date).payload = .deposit fields := payload
      rw [read]
      trivial
  | withdrawalCompleted fields =>
      have read : (log.toEvent decoded date).payload = .withdrawalCompleted fields := payload
      rw [read]
      trivial
  | withdrawalRequested request =>
      have read : (log.toEvent decoded date).payload = .withdrawalRequested request := payload
      rw [read]
      have small : log.quoted < Amount.bound := by
        rw [← Nat.not_le]
        exact fun excess => fits ⟨congrArg Payload.kind payload, excess⟩
      have quote := Log.estimate_of_resolve resolved payload
      simp only [small, if_true] at quote
      split at quote
      · exact ⟨_, quote⟩
      · exact ⟨_, quote⟩

theorem verdict_of_overquoted (resolved : log.resolve contracts = .ok (.event decoded))
    (excess : log.Overquoted decoded) (fresh : OrderId) (table : OrderTable) :
    verdict ⟨fresh, .ofEvent (log.toEvent decoded date) published⟩ table =
      .error (.amount (log.toEvent decoded date).key .overflow) := by
  obtain ⟨kind, large⟩ := excess
  cases payload : decoded.payload with
  | deposit fields =>
      rw [payload] at kind
      cases kind
  | withdrawalCompleted fields =>
      rw [payload] at kind
      cases kind
  | withdrawalRequested request =>
      have read : (Message.ofEvent (log.toEvent decoded date) published).payload =
          .ok (.withdrawalRequested request) :=
        (Message.payload_ofEvent _ _).trans (congrArg Except.ok payload)
      have priced : (log.dataWord 2).toNat ≠ 0 := by
        intro zero
        rw [Log.quoted, zero, Nat.mul_zero, Nat.zero_mul] at large
        exact absurd large (Nat.not_le.mpr (twoTo_pos 256))
      have quote := Log.estimate_of_resolve resolved payload
      rw [if_neg priced, if_neg (Nat.not_lt.mpr large)] at quote
      have amount : (Message.ofEvent (log.toEvent decoded date) published).amount =
          decoded.amount := rfl
      simp only [verdict, read, amount, quote]
      rfl

end

/-- The message of a log's event, with its dates as clocks show them, is one of the same log. -/
theorem shown_ofEvent_toEvent (log : Log) (decoded : DecodedLog) (date published : Instant) :
    (Message.ofEvent (log.toEvent decoded date) published).shown =
      Message.ofEvent (log.toEvent decoded date.shown) published.shown := rfl

/-- What the bytes of a published event come to, in memory. -/
theorem interpret_process {fresh : OrderId} {e : VaultEvent} {t : Instant} {bytes : List UInt8}
    (payload : bytes = (Message.ofEvent e t).toBytes) (table : OrderTable) :
    (process fresh bytes).run.interpret OrderTable.answer table =
      settle ⟨fresh, (Message.ofEvent e t).shown⟩ table := by
  rw [process, payload, Message.ofBytes_toBytes]
  exact applyTo_eq_settle ⟨fresh, (Message.ofEvent e t).shown⟩ table

end Materialize

namespace Consume

open Materialize (Arrival)

/-- The bus and the table of orders kept in memory. -/
def Reader.answer : (c : Consume.interface.Call) → StateM Reader (Consume.interface.Reply c)
  | .bus c => fun s => ((Bus.answer c s.bus).1, { s with bus := (Bus.answer c s.bus).2 })
  | .orders c => fun s =>
    ((OrderTable.answer c s.orders).1, { s with orders := (OrderTable.answer c s.orders).2 })

theorem interpret_onOrders {α : Type} (p : Program OrderTable.interface α) (s : Reader) :
    (onOrders p).interpret Reader.answer s =
      ((p.interpret OrderTable.answer s.orders).1,
        { s with orders := (p.interpret OrderTable.answer s.orders).2 }) := by
  induction p generalizing s with
  | done a => rfl
  | call c next ih => exact ih (OrderTable.answer c s.orders).1 _

/-- What a turn makes of the message that it reads. -/
theorem interpret_turn (fresh : OrderId) {s : Reader} {d : Delivery}
    (next : s.bus.log[s.bus.position]? = some d) :
    (turn fresh).interpret Reader.answer s =
      match (Materialize.process fresh d.payload).run.interpret OrderTable.answer s.orders with
      | (.ok _, after) =>
        (.proceed,
          ⟨{ s.bus with position := s.bus.position + 1, committed := d.offset + 1 }, after⟩)
      | (.error _, after) => (.pause, ⟨{ s.bus with position := d.offset }, after⟩) := by
  have read : (askBus .next).interpret Reader.answer s =
      (.ok d, { s with bus := { s.bus with position := s.bus.position + 1 } }) := by
    change Reader.answer (.bus .next) s = _
    simp only [Reader.answer, Bus.answer, next]
    rfl
  rw [turn, Program.interpret_bind_run, read]
  simp only
  rw [handle, Program.interpret_bind_run, interpret_onOrders]
  simp only
  cases (Materialize.process fresh d.payload).run.interpret OrderTable.answer s.orders with
  | mk r after =>
      cases r with
      | ok applied => rfl
      | error fault => rfl

/-- A message that makes a turn pause and changes nothing is one that the loop does not get past. -/
theorem run_of_pause {id : OrderId} {s : Reader}
    (stuck : (turn id).interpret Reader.answer s = (.pause, s)) (turns pauses : Nat) :
    run Reader.answer (pure id) turns pauses s = (.cancelled, s) := by
  induction turns generalizing pauses with
  | zero => rfl
  | succ turns ih =>
      have unfolded := run_succ Reader.answer (pure id) turns pauses s
      have named : (pure id : StateM Reader OrderId) s = (id, s) := rfl
      simp only [named, stuck] at unfolded
      refine unfolded.trans ?_
      cases pauses with
      | zero => rfl
      | succ pauses => exact ih pauses

section

variable {contracts : Contracts} {log : Log} {decoded : DecodedLog} {date published : Instant}
  {fresh : OrderId} {s : Reader} {d : Delivery}

theorem refused_of_overquoted (fresh : OrderId)
    (resolved : log.resolve contracts = .ok (.event decoded)) (excess : log.Overquoted decoded)
    (next : s.bus.log[s.bus.position]? = some d) (offset : d.offset = s.bus.position)
    (payload : d.payload = (Message.ofEvent (log.toEvent decoded date) published).toBytes) :
    (Materialize.process fresh d.payload).run.interpret OrderTable.answer s.orders =
        (.error (.amount (log.toEvent decoded date).key .overflow), s.orders) ∧
      (turn fresh).interpret Reader.answer s = (.pause, s) := by
  have refused : (Materialize.process fresh d.payload).run.interpret OrderTable.answer s.orders =
      (.error (.amount (log.toEvent decoded date).key .overflow), s.orders) := by
    rw [Materialize.interpret_process payload, Materialize.shown_ofEvent_toEvent,
      Materialize.settle, Materialize.verdict_of_overquoted resolved excess]
    rfl
  refine ⟨refused, ?_⟩
  rw [interpret_turn fresh next, refused, offset]

/-- Whatever messages have come before and whichever of their calls have failed, a message that is
published for a log is applied as soon as no call fails, and the loop goes on behind it. The
exception is a request whose quote is no number of 256 bits, which is refused and read again. -/
theorem materialized_unless_overquoted {as : List Arrival}
    {fails : OrderTable.Call → StoreFault → Prop}
    {results : List (Except Materialize.Fault Materialize.Applied)}
    (reached : Program.Runs (Materialize.answers fails) (Materialize.applyEach as) .empty results
      s.orders)
    (identities : (as.map (·.fresh) ++ [fresh]).Nodup)
    (resolved : log.resolve contracts = .ok (.event decoded))
    (next : s.bus.log[s.bus.position]? = some d) (offset : d.offset = s.bus.position)
    (payload : d.payload = (Message.ofEvent (log.toEvent decoded date) published).toBytes) :
    (¬ log.Overquoted decoded → ∃ applied after,
      (Materialize.process fresh d.payload).run.interpret OrderTable.answer s.orders =
          (.ok applied, after) ∧
        (turn fresh).interpret Reader.answer s =
          (.proceed,
            ⟨{ s.bus with position := s.bus.position + 1, committed := d.offset + 1 }, after⟩)) ∧
    (log.Overquoted decoded →
      (Materialize.process fresh d.payload).run.interpret OrderTable.answer s.orders =
          (.error (.amount (log.toEvent decoded date).key .overflow), s.orders) ∧
        (turn fresh).interpret Reader.answer s = (.pause, s)) := by
  refine ⟨?_, fun excess => refused_of_overquoted fresh resolved excess next offset payload⟩
  intro fits
  let a : Arrival := ⟨fresh, .ofEvent (log.toEvent decoded date.shown) published.shown⟩
  have kept : Materialize.Kept as s.orders := by
    refine (Materialize.kept_empty.stream ?_ reached).1
    exact (List.nodup_append.mp identities).1
  have unused : ∀ o ∈ s.orders.orders, o.id ≠ fresh := by
    have issued : ((as ++ [a]).map (·.fresh)).Nodup := by
      rw [List.map_append]
      exact identities
    exact kept.issued.unused issued
  have sound : a.message.IsSound := Materialize.isSound_of_resolve resolved fits
  obtain ⟨applied, after, settled, -⟩ := Materialize.settle_of_isSound kept.consistent unused sound
  have processed : (Materialize.process fresh d.payload).run.interpret OrderTable.answer s.orders =
      (.ok applied, after) := by
    rw [Materialize.interpret_process payload, Materialize.shown_ofEvent_toEvent, settled]
  refine ⟨applied, after, processed, ?_⟩
  rw [interpret_turn fresh next, processed]

end

/-- A request of the vault's shares, with an amount and a price of 32 bytes each. -/
def sampleOffer (amount price : List UInt8) : Log where
  address := Asset.atomicQueue
  topics := [EventKind.withdrawalRequested.topic, .ofNat 0x11,
    ⟨Asset.lbtcv.address.bits.zeroExtend 256⟩, ⟨Asset.lbtc.address.bits.zeroExtend 256⟩]
  data := amount ++ List.replicate 32 0 ++ price ++ List.replicate 32 0
  blockNumber := 1
  txHash := .ofNat 7
  logIndex := 0
  removed := false

def sampleContracts : Contracts :=
  ⟨Asset.teller, Asset.atomicQueue, Asset.lbtcv.address⟩

def isRequest : Except DecodeFault Resolution → Bool
  | .ok (.event decoded) => decoded.payload.kind = .withdrawalRequested
  | _ => false

theorem event_of_isRequest {resolution : Except DecodeFault Resolution}
    (told : isRequest resolution = true) :
    ∃ decoded, resolution = .ok (.event decoded) ∧
      decoded.payload.kind = .withdrawalRequested := by
  unfold isRequest at told
  split at told
  · rename_i decoded
    exact ⟨decoded, rfl, of_decide_eq_true told⟩
  · cases told

/-- A bus with one message, which has not been read. -/
def sampleReader (log : Log) (decoded : DecodedLog) (orders : OrderTable) : Reader :=
  ⟨Bus.empty.push decoded.wallet
    (Message.ofEvent (log.toEvent decoded (.ofUnixMillis 0)) (.ofUnixMillis 0)).toBytes, orders⟩

/-- An amount of 2^249 - 1 units at the least price there is. -/
def sampleLarge : Log :=
  sampleOffer (1 :: List.replicate 31 255) (List.replicate 31 0 ++ [1])

theorem materialized_unless_overquoted_of_large_amount :
    ∃ decoded, sampleLarge.resolve sampleContracts = .ok (.event decoded) ∧
      ∃ after, (turn ⟨99⟩).interpret Reader.answer
          (sampleReader sampleLarge decoded Materialize.sampleTable) =
        (.proceed, after) := by
  obtain ⟨decoded, resolved, -⟩ :=
    event_of_isRequest (by decide +kernel : isRequest (sampleLarge.resolve sampleContracts) = true)
  have fits : ¬ sampleLarge.Overquoted decoded := fun excess => absurd excess.2 (by decide +kernel)
  have reached := @Materialize.runs_interpret_applyEach Materialize.outage
    Materialize.sampleStream.tail .empty
  have turned := (materialized_unless_overquoted (s := sampleReader sampleLarge decoded
    Materialize.sampleTable) reached (by decide : (_ ++ [(⟨99⟩ : OrderId)]).Nodup) resolved rfl rfl
    rfl).1 fits
  obtain ⟨applied, after, -, proceeds⟩ := turned
  exact ⟨decoded, resolved, _, proceeds⟩

/-- An amount of 2^255 units at a price of 4. -/
def sampleHuge : Log :=
  sampleOffer (128 :: List.replicate 31 0) (List.replicate 31 0 ++ [4])

theorem overquoted_request_never_applied :
    ∃ decoded, sampleHuge.resolve sampleContracts = .ok (.event decoded) ∧
      (Materialize.process ⟨0⟩
          (Message.ofEvent (sampleHuge.toEvent decoded (.ofUnixMillis 0))
            (.ofUnixMillis 0)).toBytes).run.interpret OrderTable.answer .empty =
        (.error (.amount ⟨(Word.ofNat 7).text, 0⟩ .overflow), .empty) ∧
      ∀ turns pauses, run Reader.answer (pure ⟨0⟩) turns pauses
        (sampleReader sampleHuge decoded .empty) = (.cancelled, sampleReader sampleHuge decoded .empty) := by
  obtain ⟨decoded, resolved, kind⟩ :=
    event_of_isRequest (by decide +kernel : isRequest (sampleHuge.resolve sampleContracts) = true)
  have excess : sampleHuge.Overquoted decoded := ⟨kind, by decide +kernel⟩
  have refused := refused_of_overquoted (s := sampleReader sampleHuge decoded .empty) ⟨0⟩ resolved
    excess rfl rfl rfl
  exact ⟨decoded, resolved, refused.1, run_of_pause refused.2⟩

end Consume

end VaultTransfers
