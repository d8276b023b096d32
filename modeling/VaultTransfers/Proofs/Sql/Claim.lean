import Mathlib.Data.List.Forall2
import VaultTransfers.Proofs.Codec.Payload
import VaultTransfers.Proofs.Program.Runs
import VaultTransfers.Proofs.Transfer.Discovery
import VaultTransfers.Sql.Outbox

/-!
How a claim on the database can end. The server may give any replies; what passes
between the two is written down. The columns of the rows are looked at before the
transaction is committed, what is in them only after that: of a claim that ends
with corrupt contents the rows stay claimed, and of one that ends with any other
fault nothing is left.
-/

namespace VaultTransfers

theorem mapM_cons_eq_ok_iff {α β ε : Type} {f : α → Except ε β} {a : α} {as : List α}
    {cs : List β} :
    (a :: as).mapM f = .ok cs ↔ ∃ b, f a = .ok b ∧ ∃ bs, as.mapM f = .ok bs ∧ b :: bs = cs := by
  rw [List.mapM_cons]
  cases f a with
  | error fault => simp [bind, Except.bind]
  | ok b =>
      cases as.mapM f with
      | error fault => simp [bind, Except.bind]
      | ok bs => simp [bind, Except.bind, pure, Except.pure]

/-- What a list is mapped to, if none of it fails. -/
theorem mapM_eq_ok_iff {α β ε : Type} {f : α → Except ε β} {as : List α} {bs : List β} :
    as.mapM f = .ok bs ↔ List.Forall₂ (fun a b => f a = .ok b) as bs := by
  induction as generalizing bs with
  | nil =>
      rw [List.forall₂_nil_left_iff, List.mapM_nil]
      exact ⟨fun same => (Except.ok.inj same).symm, fun none_ => congrArg Except.ok none_.symm⟩
  | cons a as ih =>
      rw [mapM_cons_eq_ok_iff, List.forall₂_cons_left_iff]
      simp only [ih, eq_comm (a := bs)]
      simp only [exists_and_left]

/-- The first of a list that fails tells how the whole fails. -/
theorem split_of_mapM_error {α β ε : Type} {f : α → Except ε β} {as : List α} {fault : ε}
    (failed : as.mapM f = .error fault) :
    ∃ before a behind, as = before ++ a :: behind ∧ (∀ b ∈ before, ∃ c, f b = .ok c) ∧
      f a = .error fault := by
  induction as with
  | nil => cases failed
  | cons a as ih =>
      rw [List.mapM_cons] at failed
      cases here : f a with
      | error fault' =>
          rw [here] at failed
          cases failed
          exact ⟨[], a, as, rfl, by simp, here⟩
      | ok b =>
          cases rest : as.mapM f with
          | error fault' =>
              rw [here, rest] at failed
              cases failed
              obtain ⟨before, c, behind, rfl, fine, corrupt⟩ := ih rest
              refine ⟨a :: before, c, behind, rfl, ?_, corrupt⟩
              intro d member
              rcases List.mem_cons.mp member with rfl | later
              · exact ⟨b, here⟩
              · exact fine d later
          | ok bs =>
              rw [here, rest] at failed
              cases failed

namespace Sql

open Program (Runs)

/-- A call and the reply that it got. -/
abbrev Exchange := (c : Call) × Reply c

/-- A server that may give any reply. What passes is written down. -/
def anyServer : Service interface (List Exchange) := fun c passed reply passed' =>
  passed' = passed ++ [⟨c, reply⟩]

section

variable {α β : Type} {s t : List Exchange} {b : Except StoreFault α}

theorem runs_ask_bind {c : Call} {next : Reply c → Task α} :
    Runs anyServer (ExceptT.lift (Program.perform (I := interface) c) >>= next).run s b t ↔
      ∃ reply, Runs anyServer (next reply).run (s ++ [⟨c, reply⟩]) b t := by
  constructor
  · rintro ⟨reply, u, rfl, run⟩
    exact ⟨reply, run⟩
  · rintro ⟨reply, run⟩
    exact ⟨reply, _, rfl, run⟩

theorem exists_outcome_iff {p : Except DatabaseFault β → Prop} :
    (∃ reply, p reply) ↔ (∃ a, p (.ok a)) ∨ ∃ fault, p (.error fault) := by
  constructor
  · rintro ⟨a | fault, holds⟩
    · exact .inr ⟨_, holds⟩
    · exact .inl ⟨_, holds⟩
  · rintro (⟨a, holds⟩ | ⟨fault, holds⟩)
    · exact ⟨_, holds⟩
    · exact ⟨_, holds⟩

theorem runs_begin_bind {next : Unit → Task α} :
    Runs anyServer (begin >>= next).run s b t ↔
      (∃ done, Runs anyServer (next done).run (s ++ [⟨.begin, .ok done⟩]) b t) ∨
        ∃ fault, b = .error (.database fault) ∧ t = s ++ [⟨.begin, .error fault⟩] := by
  rw [begin, bind_assoc]
  exact runs_ask_bind.trans exists_outcome_iff

theorem runs_execute_bind {text : String} {params : List Value} {next : Nat → Task α} :
    Runs anyServer (execute text params >>= next).run s b t ↔
      (∃ n, Runs anyServer (next n).run (s ++ [⟨.execute ⟨text, params⟩, .ok n⟩]) b t) ∨
        ∃ fault, b = .error (.database fault) ∧
          t = s ++ [⟨.execute ⟨text, params⟩, .error fault⟩] := by
  rw [execute, bind_assoc]
  exact runs_ask_bind.trans exists_outcome_iff

theorem runs_fetch_bind {text : String} {params : List Value} {next : List Row → Task α} :
    Runs anyServer (fetch text params >>= next).run s b t ↔
      (∃ rows, Runs anyServer (next rows).run (s ++ [⟨.fetch ⟨text, params⟩, .ok rows⟩]) b t) ∨
        ∃ fault, b = .error (.database fault) ∧
          t = s ++ [⟨.fetch ⟨text, params⟩, .error fault⟩] := by
  rw [fetch, bind_assoc]
  exact runs_ask_bind.trans exists_outcome_iff

theorem runs_commit_bind {next : Unit → Task α} :
    Runs anyServer (commit >>= next).run s b t ↔
      (∃ done, Runs anyServer (next done).run (s ++ [⟨.commit, .ok done⟩]) b t) ∨
        ∃ fault, b = .error (.database fault) ∧ t = s ++ [⟨.commit, .error fault⟩] := by
  rw [commit, bind_assoc]
  exact runs_ask_bind.trans exists_outcome_iff

theorem runs_orDatabaseFault_bind {r : Except DatabaseFault β} {next : β → Task α} :
    Runs anyServer (orDatabaseFault r >>= next).run s b t ↔
      (∃ a, r = .ok a ∧ Runs anyServer (next a).run s b t) ∨
        ∃ fault, r = .error fault ∧ b = .error (.database fault) ∧ t = s := by
  constructor
  · intro run
    cases r with
    | ok a => exact .inl ⟨a, rfl, run⟩
    | error fault => exact .inr ⟨fault, rfl, run⟩
  · rintro (⟨a, rfl, run⟩ | ⟨fault, rfl, off⟩)
    · exact run
    · exact off

theorem runs_orCorrupt_bind {r : Except Corruption β} {next : β → Task α} :
    Runs anyServer (orCorrupt r >>= next).run s b t ↔
      (∃ a, r = .ok a ∧ Runs anyServer (next a).run s b t) ∨
        ∃ what, r = .error what ∧ b = .error (.corrupt what) ∧ t = s := by
  constructor
  · intro run
    cases r with
    | ok a => exact .inl ⟨a, rfl, run⟩
    | error what => exact .inr ⟨what, rfl, run⟩
  · rintro (⟨a, rfl, run⟩ | ⟨what, rfl, off⟩)
    · exact run
    · exact off

end

namespace Outbox

def lockStatement : Statement :=
  ⟨"SELECT pg_advisory_xact_lock($1)", [.integer lockKey]⟩

def claimStatement (limit : Int) : Statement :=
  ⟨claimText, [.integer limit]⟩

/-- All that passes in a claim: the transaction begins, claimers are locked out, rows are given out,
and it is committed, or that is refused. -/
def transacted (limit : Int) (locked : Nat) (rows : List Row) (committed : Outcome) :
    List Exchange :=
  [⟨.begin, .ok ()⟩, ⟨.execute lockStatement, .ok locked⟩,
    ⟨.fetch (claimStatement limit), .ok rows⟩, ⟨.commit, committed⟩]

/-- The ways in which a claim can end, with what has passed by then. -/
inductive Claims (limit : Int) : Except StoreFault (List OutboxEvent) → List Exchange → Prop
  | unbegun {fault : DatabaseFault} :
      Claims limit (.error (.database fault)) [⟨.begin, .error fault⟩]
  | unlocked {fault : DatabaseFault} :
      Claims limit (.error (.database fault))
        [⟨.begin, .ok ()⟩, ⟨.execute lockStatement, .error fault⟩]
  | refused {locked : Nat} {fault : DatabaseFault} :
      Claims limit (.error (.database fault))
        [⟨.begin, .ok ()⟩, ⟨.execute lockStatement, .ok locked⟩,
          ⟨.fetch (claimStatement limit), .error fault⟩]
  | misshapen {locked : Nat} {rows : List Row} {fault : DatabaseFault}
      (unread : rows.mapM Record.ofRow = .error fault) :
      Claims limit (.error (.database fault))
        [⟨.begin, .ok ()⟩, ⟨.execute lockStatement, .ok locked⟩,
          ⟨.fetch (claimStatement limit), .ok rows⟩]
  | uncommitted {locked : Nat} {rows : List Row} {records : List Record} {fault : DatabaseFault}
      (read : rows.mapM Record.ofRow = .ok records) :
      Claims limit (.error (.database fault)) (transacted limit locked rows (.error fault))
  | corrupt {locked : Nat} {rows : List Row} {records : List Record} {what : Corruption}
      (read : rows.mapM Record.ofRow = .ok records)
      (unsound : records.mapM Record.toEvent = .error what) :
      Claims limit (.error (.corrupt what)) (transacted limit locked rows (.ok ()))
  | claimed {locked : Nat} {rows : List Row} {records : List Record} {found : List OutboxEvent}
      (read : rows.mapM Record.ofRow = .ok records)
      (sound : records.mapM Record.toEvent = .ok found) :
      Claims limit (.ok (OutboxEvent.inOrder found)) (transacted limit locked rows (.ok ()))

section

variable {limit : Int} {result : Except StoreFault (List OutboxEvent)} {passed : List Exchange}

theorem runs_claim_iff :
    Runs anyServer (claim limit).run [] result passed ↔ Claims limit result passed := by
  simp only [claim, runs_begin_bind, runs_execute_bind, runs_fetch_bind, runs_commit_bind,
    runs_orDatabaseFault_bind, runs_orCorrupt_bind]
  constructor
  · rintro (⟨begun, ⟨locked, ⟨rows, run⟩ | ⟨fault, rfl, rfl⟩⟩ | ⟨fault, rfl, rfl⟩⟩ | ⟨fault, rfl, rfl⟩)
    · rcases run with ⟨records, read, ⟨done, run⟩ | ⟨fault, rfl, rfl⟩⟩ | ⟨fault, unread, rfl, rfl⟩
      · rcases run with ⟨found, sound, rfl, rfl⟩ | ⟨what, unsound, rfl, rfl⟩
        · exact .claimed read sound
        · exact .corrupt read unsound
      · exact .uncommitted read
      · exact .misshapen unread
    · exact .refused
    · exact .unlocked
    · exact .unbegun
  · intro claims
    cases claims with
    | unbegun => exact .inr ⟨_, rfl, rfl⟩
    | unlocked => exact .inl ⟨(), .inr ⟨_, rfl, rfl⟩⟩
    | refused => exact .inl ⟨(), .inl ⟨_, .inr ⟨_, rfl, rfl⟩⟩⟩
    | misshapen unread => exact .inl ⟨(), .inl ⟨_, .inl ⟨_, .inr ⟨_, unread, rfl, rfl⟩⟩⟩⟩
    | uncommitted read =>
        exact .inl ⟨(), .inl ⟨_, .inl ⟨_, .inl ⟨_, read, .inr ⟨_, rfl, rfl⟩⟩⟩⟩⟩
    | corrupt read unsound =>
        exact .inl ⟨(), .inl ⟨_, .inl ⟨_, .inl ⟨_, read, .inl ⟨(), .inr ⟨_, unsound, rfl, rfl⟩⟩⟩⟩⟩⟩
    | claimed read sound =>
        exact .inl ⟨(), .inl ⟨_, .inl ⟨_, .inl ⟨_, read, .inl ⟨(), .inl ⟨_, sound, rfl, rfl⟩⟩⟩⟩⟩⟩

/-- The row that the server gives is the event. -/
def Reads (row : Row) (e : OutboxEvent) : Prop :=
  ∃ record, Record.ofRow row = .ok record ∧ record.toEvent = .ok e

theorem forall₂_reads {rows : List Row} {records : List Record} {found : List OutboxEvent}
    (read : rows.mapM Record.ofRow = .ok records) (sound : records.mapM Record.toEvent = .ok found) :
    List.Forall₂ Reads rows found := by
  rw [mapM_eq_ok_iff] at read sound
  induction read generalizing found with
  | nil =>
      cases sound
      exact .nil
  | cons here _ ih =>
      cases sound with
      | cons event rest => exact .cons ⟨_, here, event⟩ (ih rest)

/-- A claim that succeeds has been committed, and it hands out the server's rows one by one in the
order of discovery. One that fails has not been committed, or the server has refused that, with one
exception: where a column of some row holds what no event has, the claim fails after it has been
committed, and all its rows stay claimed. -/
theorem committed_of_claim (run : Runs anyServer (claim limit).run [] result passed) :
    (∀ events, result = .ok events → ∃ locked rows found,
      passed = transacted limit locked rows (.ok ()) ∧ List.Forall₂ Reads rows found ∧
        events.Perm found ∧ events.Pairwise fun a b => b.foundBefore a = false) ∧
    ∀ fault, result = .error fault →
      (∀ reply, ⟨.commit, reply⟩ ∉ passed) ∨
      (∃ locked rows refusal, passed = transacted limit locked rows (.error refusal) ∧
        fault = .database refusal) ∨
      ∃ locked rows before record behind what,
        passed = transacted limit locked rows (.ok ()) ∧
        List.Forall₂ (fun row record => Record.ofRow row = .ok record) rows
          (before ++ record :: behind) ∧
        (∀ r ∈ before, ∃ e, r.toEvent = .ok e) ∧ record.toEvent = .error what ∧
        fault = .corrupt what := by
  rw [runs_claim_iff] at run
  constructor
  · rintro events rfl
    cases run with
    | claimed read sound =>
        exact ⟨_, _, _, rfl, forall₂_reads read sound, List.mergeSort_perm _ _,
          OutboxEvent.pairwise_inOrder _⟩
  · rintro fault rfl
    cases run with
    | unbegun => exact .inl (by simp)
    | unlocked => exact .inl (by simp)
    | refused => exact .inl (by simp)
    | misshapen _ => exact .inl (by simp)
    | uncommitted _ => exact .inr (.inl ⟨_, _, _, rfl, rfl⟩)
    | corrupt read unsound =>
        obtain ⟨before, record, behind, rfl, fine, corrupt⟩ := split_of_mapM_error unsound
        exact .inr (.inr ⟨_, _, before, record, behind, _, rfl, mapM_eq_ok_iff.mp read, fine, corrupt,
          rfl⟩)

end

def samplePayload : Payload :=
  .deposit ⟨"1", "w", "token", "5", "5", "0", "0"⟩

/-- A deposit as a row of a claim. -/
def sampleRow (logIndex : Int) : Row :=
  [("tx_hash", .text "0x1"), ("log_index", .integer logIndex), ("event_type", .text "deposit"),
    ("status", .text "processing"), ("block_number", .integer 5), ("tx_date", .timestamp 0),
    ("wallet_address", .text "w"), ("event_data", .json samplePayload.toJson), ("amount", .text "5"),
    ("from_asset", .text "token"), ("to_asset", .text "share"), ("created_at", .timestamp 0)]

def sampleDate : Instant :=
  ⟨946684800, 0, by decide, by decide, by decide⟩

def sampleRecord (logIndex : Int) : Record :=
  ⟨"0x1", logIndex, "deposit", "processing", 5, sampleDate, "w", samplePayload.toJson, "5", "token",
    "share", sampleDate⟩

theorem ofRow_sampleRow (logIndex : Int) :
    Record.ofRow (sampleRow logIndex) = .ok (sampleRecord logIndex) := by
  rfl

def sampleEvent (logIndex : UInt64) : OutboxEvent :=
  ⟨⟨"0x1", logIndex, 5, sampleDate, "w", "5", "token", "share", samplePayload⟩, .processing,
    sampleDate⟩

theorem toEvent_sampleRecord {logIndex : Int} {r : Except Corruption UInt64}
    (read : nonnegative logIndex = r) :
    (sampleRecord logIndex).toEvent = r.map sampleEvent := by
  have kind : known (EventKind.ofText "deposit") = .ok .deposit := rfl
  have payload : Record.payload .deposit samplePayload.toJson = .ok samplePayload := rfl
  have block : nonnegative 5 = .ok 5 := rfl
  have status : known (OutboxStatus.ofText "processing") = .ok .processing := rfl
  simp only [sampleRecord, Record.toEvent, kind, payload, block, status, read, bind, Except.bind]
  cases r with
  | ok index => rfl
  | error what => rfl

/-- Two deposits of one block, of which the server gives the later first. -/
theorem committed_of_claim_of_two_rows :
    ∃ events, Runs anyServer (claim 10).run [] (.ok events)
        (transacted 10 1 [sampleRow 1, sampleRow 0] (.ok ())) ∧
      events.Pairwise fun a b => b.foundBefore a = false := by
  have read : [sampleRow 1, sampleRow 0].mapM Record.ofRow =
      .ok [sampleRecord 1, sampleRecord 0] := rfl
  have sound : [sampleRecord 1, sampleRecord 0].mapM Record.toEvent =
      .ok [sampleEvent 1, sampleEvent 0] := by
    rw [mapM_eq_ok_iff]
    exact .cons (toEvent_sampleRecord rfl) (.cons (toEvent_sampleRecord rfl) .nil)
  have run : Runs anyServer (claim 10).run [] _
      (transacted 10 1 [sampleRow 1, sampleRow 0] (.ok ())) :=
    runs_claim_iff.mpr (.claimed read sound)
  obtain ⟨locked, rows, found, -, -, -, sorted⟩ := (committed_of_claim run).1 _ rfl
  exact ⟨_, run, sorted⟩

/-- A claim fails for a negative number in one of its rows, after the other has been claimed for good
along with it. -/
theorem corrupt_row_committed :
    Reads (sampleRow 0) (sampleEvent 0) ∧
      Runs anyServer (claim 10).run [] (.error (.corrupt (.negative (-1))))
        (transacted 10 1 [sampleRow 0, sampleRow (-1)] (.ok ())) ∧
      ⟨.commit, .ok ()⟩ ∈ transacted 10 1 [sampleRow 0, sampleRow (-1)] (.ok ()) := by
  have good : (sampleRecord 0).toEvent = .ok (sampleEvent 0) := toEvent_sampleRecord (r := .ok 0) rfl
  have bad : (sampleRecord (-1)).toEvent = .error (.negative (-1)) :=
    toEvent_sampleRecord (r := .error (.negative (-1))) rfl
  have read : [sampleRow 0, sampleRow (-1)].mapM Record.ofRow =
      .ok [sampleRecord 0, sampleRecord (-1)] := rfl
  have unsound : [sampleRecord 0, sampleRecord (-1)].mapM Record.toEvent =
      .error (.negative (-1)) := by
    rw [List.mapM_cons, good, List.mapM_cons, bad]
    rfl
  refine ⟨⟨_, ofRow_sampleRow 0, good⟩, runs_claim_iff.mpr (.corrupt read unsound), ?_⟩
  simp [transacted]

end Outbox

end Sql

end VaultTransfers
