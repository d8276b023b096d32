import Mathlib.Data.List.Forall2
import VaultTransfers.Node.Client
import VaultTransfers.Proofs.Program.Runs

/-!
What passes between a client and a node. The node may answer anything. Whatever
is asked of the client, each call is one request that is sent once to four times;
a reply calls for another try or it decides the call, and the numbers run on from
one call to the next.
-/

namespace VaultTransfers.Node

/-- A request and its reply. -/
abbrev Exchange := Request × Reply

/-- Replies that call for another try: none at all, the status of an error, a body that cannot be
read, or an error that the node reports. -/
inductive Reply.Transient : Reply → Prop
  | lost : Transient .lost
  | refused {status : Nat} {body : List UInt8} (failure : 400 ≤ status ∧ status < 600) :
      Transient (.answered status body)
  | garbled {status : Nat} {body : List UInt8} {fault : Json.ReadFault}
      (unread : Envelope.ofBytes body = .error fault) : Transient (.answered status body)
  | reported {status : Nat} {body : List UInt8} {envelope : Envelope} {report : Report}
      (read : Envelope.ofBytes body = .ok envelope) (error : envelope.error = some report) :
      Transient (.answered status body)

/-- What is sent for a call. -/
def wording : Chain.Call → String × Json
  | .latestBlock => ("eth_blockNumber", .arr [])
  | .logs first last emitters topics =>
    ("eth_getLogs", .arr [logFilter first last emitters topics])
  | .succeeded txHash => ("eth_getTransactionReceipt", .arr [.str txHash.text])
  | .blockTime number => ("eth_getBlockByNumber", .arr [hexBlock number, .bool false])

/-- What one reply makes of a call. -/
def verdict : (c : Chain.Call) → Reply → Except NodeFault (Chain.Value c)
  | .latestBlock, reply => outcome "eth_blockNumber" quantity reply
  | .logs _ _ _ _, reply => outcome "eth_getLogs" Log.listOfJson reply
  | .succeeded txHash, reply =>
    found (.receipt txHash) (fun r => .ok r.succeeded)
      (outcome "eth_getTransactionReceipt" (nullable Receipt.ofJson) reply)
  | .blockTime number, reply =>
    found (.block number) (fun h => timeOf "eth_getBlockByNumber" h.timestamp)
      (outcome "eth_getBlockByNumber" (nullable BlockHeader.ofJson) reply)

theorem outcome_transient_iff {α : Type} (method : String)
    (decode : Json → Except Json.ShapeFault α) {reply : Reply} :
    reply.Transient ↔ ∃ fault, outcome method decode reply = .error fault ∧
      fault.isTransient = true := by
  constructor
  · intro transient
    cases transient with
    | lost => exact ⟨_, rfl, rfl⟩
    | refused failure => exact ⟨_, if_pos failure, rfl⟩
    | @garbled status body fault unread =>
        by_cases failure : 400 ≤ status ∧ status < 600
        · exact ⟨_, if_pos failure, rfl⟩
        · refine ⟨.exchange .body, ?_, rfl⟩
          rw [outcome, if_neg failure, unread]
    | @reported status body envelope report read error =>
        by_cases failure : 400 ≤ status ∧ status < 600
        · exact ⟨_, if_pos failure, rfl⟩
        · refine ⟨.reported report.code report.message, ?_, rfl⟩
          rw [outcome, if_neg failure, read]
          simp only [error]
  · rintro ⟨fault, failed, transient⟩
    cases reply with
    | lost => exact .lost
    | answered status body =>
        by_cases failure : 400 ≤ status ∧ status < 600
        · exact .refused failure
        · rw [outcome, if_neg failure] at failed
          cases read : Envelope.ofBytes body with
          | error fault => exact .garbled read
          | ok envelope =>
              cases error : envelope.error with
              | some report => exact .reported read error
              | none =>
                  simp only [read, error] at failed
                  cases decoded : decode (envelope.result.getD .null) with
                  | ok a =>
                      rw [decoded] at failed
                      cases failed
                  | error fault =>
                      rw [decoded] at failed
                      cases failed
                      cases transient

/-- A request under one number after another until a reply is not transient or no retry is left. -/
inductive Tries (method : String) (params : Json) :
    (retries id : Nat) → List Exchange → Reply → Prop
  | last {retries id : Nat} {reply : Reply} (ends : reply.Transient → retries = 0) :
      Tries method params retries id [(⟨id, method, params⟩, reply)] reply
  | again {retries id : Nat} {reply final : Reply} {exchanges : List Exchange}
      (transient : reply.Transient)
      (rest : Tries method params retries (id + 1) exchanges final) :
      Tries method params (retries + 1) id ((⟨id, method, params⟩, reply) :: exchanges) final

/-- A node whose replies are these, one after another. What passes is written down. -/
def node (replies : Nat → Reply) :
    (c : exchange.Call) → StateM (List Exchange) (exchange.Reply c) :=
  fun (c : Request) passed => (replies passed.length, passed ++ [(c, replies passed.length)])

section

variable {α : Type} {method : String} {params : Json} {decode : Json → Except Json.ShapeFault α}
  {replies : Nat → Reply}

theorem interpret_attempt_zero (id : Nat) (passed : List Exchange) :
    Program.interpret (node replies) (attempt method params decode 0 id) passed =
      ((outcome method decode (replies passed.length), id + 1),
        passed ++ [(⟨id, method, params⟩, replies passed.length)]) := rfl

/-- What is done about an outcome while there is a retry left. -/
def retrying (again : Client (Except NodeFault α)) :
    Except NodeFault α → Client (Except NodeFault α)
  | .ok a => pure (.ok a)
  | .error fault => if fault.isTransient then again else pure (.error fault)

theorem attempt_succ (retries id : Nat) :
    attempt method params decode (retries + 1) id =
      Program.call (I := exchange) ⟨id, method, params⟩ fun (reply : Reply) =>
        retrying (attempt method params decode retries) (outcome method decode reply) (id + 1) := by
  refine congrArg (Program.call (I := exchange) _) (funext fun (reply : Reply) => ?_)
  cases outcome_eq : outcome method decode reply with
  | ok a =>
      dsimp only [Program.bind, pure]
      rw [outcome_eq]
      rfl
  | error fault =>
      dsimp only [Program.bind, pure]
      rw [outcome_eq]
      rfl

theorem interpret_attempt_of_transient {retries id : Nat} {passed : List Exchange}
    (transient : (replies passed.length).Transient) :
    Program.interpret (node replies) (attempt method params decode (retries + 1) id) passed =
      Program.interpret (node replies) (attempt method params decode retries (id + 1))
        (passed ++ [(⟨id, method, params⟩, replies passed.length)]) := by
  obtain ⟨fault, failed, again⟩ :=
    (outcome_transient_iff method decode).mp transient
  rw [attempt_succ]
  change Program.interpret (node replies)
    (retrying _ (outcome method decode (replies passed.length)) _) _ = _
  rw [failed, retrying, if_pos again]

theorem interpret_attempt_of_final {retries id : Nat} {passed : List Exchange}
    (final : ¬ (replies passed.length).Transient) :
    Program.interpret (node replies) (attempt method params decode (retries + 1) id) passed =
      ((outcome method decode (replies passed.length), id + 1),
        passed ++ [(⟨id, method, params⟩, replies passed.length)]) := by
  rw [attempt_succ]
  change Program.interpret (node replies)
    (retrying _ (outcome method decode (replies passed.length)) _) _ = _
  cases failed : outcome method decode (replies passed.length) with
  | ok a => rfl
  | error fault =>
      have lasting : ¬ fault.isTransient = true := fun transient =>
        final ((outcome_transient_iff method decode).mpr ⟨fault, failed, transient⟩)
      rw [retrying, if_neg lasting]
      rfl

variable (decode replies) in
theorem tries_of_attempt (retries id : Nat) (passed : List Exchange) :
    ∃ exchanges final, Tries method params retries id exchanges final ∧
      exchanges.map (·.2) = (List.range' passed.length exchanges.length).map replies ∧
      Program.interpret (node replies) (attempt method params decode retries id) passed =
        ((outcome method decode final, id + exchanges.length), passed ++ exchanges) := by
  -- What has passed already tells which reply comes next, so that both vary with the retries left.
  induction retries generalizing id passed with
  | zero => exact ⟨_, _, .last fun _ => rfl, rfl, interpret_attempt_zero id passed⟩
  | succ retries ih =>
      by_cases transient : (replies passed.length).Transient
      · obtain ⟨exchanges, final, tries, told, later⟩ :=
          ih (id + 1) (passed ++ [(⟨id, method, params⟩, replies passed.length)])
        refine ⟨_, final, .again transient tries, ?_, ?_⟩
        · rw [List.length_append] at told
          exact congrArg (replies passed.length :: ·) told
        · rw [interpret_attempt_of_transient transient, later, List.append_assoc,
            List.length_cons, Nat.add_assoc, Nat.add_comm 1]
          rfl
      · exact ⟨_, _, .last fun here => absurd here transient, rfl,
          interpret_attempt_of_final transient⟩

variable (decode replies) in
theorem tries_of_request {β : Type} (use : Except NodeFault α → β) (id : Nat)
    (passed : List Exchange) :
    ∃ exchanges final, Tries method params maxRetries id exchanges final ∧
      exchanges.map (·.2) = (List.range' passed.length exchanges.length).map replies ∧
      Program.interpret (node replies)
          ((request method params decode >>= fun r => pure (use r) : Client β) id) passed =
        ((use (outcome method decode final), id + exchanges.length), passed ++ exchanges) := by
  obtain ⟨exchanges, final, tries, told, run⟩ :=
    tries_of_attempt decode replies maxRetries id passed
  refine ⟨exchanges, final, tries, told, ?_⟩
  change Program.interpret (node replies)
    (attempt method params decode maxRetries id >>= fun x => pure (use x.1, x.2)) passed = _
  rw [Program.interpret_bind_run, run]
  rfl

end

namespace Tries

variable {method : String} {params : Json} {retries id : Nat} {exchanges : List Exchange}
  {final : Reply}

theorem length_pos (tries : Tries method params retries id exchanges final) :
    0 < exchanges.length := by
  cases tries with
  | last => exact Nat.one_pos
  | again => exact Nat.succ_pos _

theorem length_le (tries : Tries method params retries id exchanges final) :
    exchanges.length ≤ retries + 1 := by
  induction tries with
  | last => exact Nat.le_add_left 1 _
  | again _ _ ih => exact Nat.succ_le_succ ih

theorem wording (tries : Tries method params retries id exchanges final) :
    ∀ e ∈ exchanges, (e.1.method, e.1.params) = (method, params) := by
  induction tries with
  | last => exact List.forall_mem_singleton.mpr rfl
  | again _ _ ih => exact List.forall_mem_cons.mpr ⟨rfl, ih⟩

theorem ids (tries : Tries method params retries id exchanges final) :
    exchanges.map (·.1.id) = List.range' id exchanges.length := by
  induction tries with
  | last => rfl
  | again _ _ ih => exact congrArg (_ :: ·) ih

theorem getLast?_eq (tries : Tries method params retries id exchanges final) :
    ∃ last, exchanges.getLast? = some last ∧ last.2 = final := by
  induction tries with
  | last => exact ⟨_, rfl, rfl⟩
  | again _ rest ih =>
      obtain ⟨last, found, rfl⟩ := ih
      refine ⟨last, ?_, rfl⟩
      rw [List.getLast?_cons, found]
      rfl

/-- Just after a transient reply another try follows, as long as there is one left. -/
theorem again_iff (tries : Tries method params retries id exchanges final) :
    ∀ i e, exchanges[i]? = some e →
      (i + 1 < exchanges.length ↔ e.2.Transient ∧ i < retries) := by
  induction tries with
  | @last retries id reply ends =>
      intro i e found
      cases i with
      | zero =>
          obtain rfl := Option.some.inj found
          refine iff_of_false (Nat.lt_irrefl 1) ?_
          rintro ⟨transient, left⟩
          rw [ends transient] at left
          exact Nat.lt_irrefl 0 left
      | succ i => cases found
  | @again retries id reply final exchanges transient rest ih =>
      intro i e found
      cases i with
      | zero =>
          obtain rfl := Option.some.inj found
          exact iff_of_true (Nat.succ_lt_succ rest.length_pos) ⟨transient, Nat.succ_pos _⟩
      | succ i =>
          have behind := ih i e found
          rw [List.length_cons, Nat.succ_lt_succ_iff, Nat.succ_lt_succ_iff]
          exact behind

end Tries

/-- What passes for one call, and what the call ends with. -/
structure Conversation (c : Chain.Call) (exchanges : List Exchange)
    (result : Except NodeFault (Chain.Value c)) : Prop where
  some_sent : 1 ≤ exchanges.length
  bounded : exchanges.length ≤ 4
  same : ∀ e ∈ exchanges, (e.1.method, e.1.params) = wording c
  again_iff : ∀ i e, exchanges[i]? = some e →
    (i + 1 < exchanges.length ↔ e.2.Transient ∧ i + 1 < 4)
  decided : ∃ last, exchanges.getLast? = some last ∧ result = verdict c last.2
  /-- A result that is not understood, or not there, is not asked for again. -/
  settled : ∀ i e, exchanges[i]? = some e →
    (∃ method fault, verdict c e.2 = .error (.result method fault)) ∨
      (∃ what, verdict c e.2 = .error (.notFound what)) → i + 1 = exchanges.length

theorem verdict_of_transient {c : Chain.Call} {reply : Reply} (transient : reply.Transient) :
    ∃ fault, verdict c reply = .error fault ∧ fault.isTransient = true := by
  cases c with
  | latestBlock | logs => exact (outcome_transient_iff _ _).mp transient
  | succeeded | blockTime =>
      obtain ⟨fault, failed, again⟩ := (outcome_transient_iff _ _).mp transient
      refine ⟨fault, ?_, again⟩
      rw [verdict, failed]
      rfl

theorem conversation_of_tries {c : Chain.Call} {id : Nat} {exchanges : List Exchange}
    {final : Reply} (tries : Tries (wording c).1 (wording c).2 maxRetries id exchanges final) :
    Conversation c exchanges (verdict c final) where
  some_sent := tries.length_pos
  bounded := tries.length_le
  same := tries.wording
  again_iff i e found := by
    rw [tries.again_iff i e found, ← Nat.succ_lt_succ_iff]
    rfl
  decided := by
    obtain ⟨last, found, rfl⟩ := tries.getLast?_eq
    exact ⟨last, found, rfl⟩
  settled i e found lasting := by
    have within := (List.getElem?_eq_some_iff.mp found).1
    refine Nat.le_antisymm within (Nat.le_of_not_lt fun more => ?_)
    obtain ⟨transient, -⟩ := (tries.again_iff i e found).mp more
    obtain ⟨fault, failed, again⟩ := verdict_of_transient (c := c) transient
    obtain ⟨method, what, told⟩ | ⟨what, told⟩ := lasting
    · rw [told] at failed
      cases failed
      cases again
    · rw [told] at failed
      cases failed
      cases again

variable {replies : Nat → Reply}

variable (replies) in
theorem conversation_of_answer (c : Chain.Call) (id : Nat) (passed : List Exchange) :
    ∃ exchanges result, Conversation c exchanges result ∧
      exchanges.map (·.1.id) = List.range' id exchanges.length ∧
      exchanges.map (·.2) = (List.range' passed.length exchanges.length).map replies ∧
      Program.interpret (node replies) (answer c id) passed =
        ((result, id + exchanges.length), passed ++ exchanges) := by
  have reduced : ∃ exchanges final,
      Tries (wording c).1 (wording c).2 maxRetries id exchanges final ∧
      exchanges.map (·.2) = (List.range' passed.length exchanges.length).map replies ∧
      Program.interpret (node replies) (answer c id) passed =
        ((verdict c final, id + exchanges.length), passed ++ exchanges) := by
    cases c with
    | latestBlock => exact tries_of_attempt _ replies maxRetries id passed
    | logs first last emitters topics => exact tries_of_attempt _ replies maxRetries id passed
    | succeeded txHash => exact tries_of_request (nullable Receipt.ofJson) replies _ id passed
    | blockTime number => exact tries_of_request (nullable BlockHeader.ofJson) replies _ id passed
  obtain ⟨exchanges, final, tries, told, run⟩ := reduced
  exact ⟨exchanges, _, conversation_of_tries tries, tries.ids, told, run⟩

/-- A call and what it ends with. -/
abbrev Answered := (c : Chain.Call) × Except NodeFault (Chain.Value c)

/-- One call after another. -/
def askAll : List Chain.Call → Client (List Answered)
  | [] => pure []
  | c :: calls => do
    let result ← answer c
    return ⟨c, result⟩ :: (← askAll calls)

theorem interpret_askAll_cons {c : Chain.Call} {calls : List Chain.Call} {id id' : Nat}
    {passed passed' : List Exchange} {result : Except NodeFault (Chain.Value c)}
    (run : Program.interpret (node replies) (answer c id) passed = ((result, id'), passed')) :
    Program.interpret (node replies) (askAll (c :: calls) id) passed =
      ((⟨c, result⟩ :: (Program.interpret (node replies) (askAll calls id') passed').1.1,
        (Program.interpret (node replies) (askAll calls id') passed').1.2),
        (Program.interpret (node replies) (askAll calls id') passed').2) := by
  change Program.interpret (node replies)
    (answer c id >>= fun x => askAll calls x.2 >>= fun y => pure (⟨c, x.1⟩ :: y.1, y.2)) passed = _
  rw [Program.interpret_bind_run, run, Program.interpret_bind_run]
  rfl

variable (replies) in
theorem conversations_of_askAll (calls : List Chain.Call) (id : Nat) (passed : List Exchange) :
    ∃ results groups,
      results.map (·.1) = calls ∧
      List.Forall₂ (fun a exchanges => Conversation a.1 exchanges a.2) results groups ∧
      groups.flatten.map (·.1.id) = List.range' id groups.flatten.length ∧
      groups.flatten.map (·.2) = (List.range' passed.length groups.flatten.length).map replies ∧
      Program.interpret (node replies) (askAll calls id) passed =
        ((results, id + groups.flatten.length), passed ++ groups.flatten) := by
  induction calls generalizing id passed with
  | nil => exact ⟨[], [], rfl, .nil, rfl, rfl, congrArg (([], id), ·) (List.append_nil passed).symm⟩
  | cons c calls ih =>
      obtain ⟨exchanges, result, conversation, ids, told, run⟩ :=
        conversation_of_answer replies c id passed
      obtain ⟨results, groups, asked, conversations, ids', told', run'⟩ :=
        ih (id + exchanges.length) (passed ++ exchanges)
      refine ⟨⟨c, result⟩ :: results, exchanges :: groups, congrArg (c :: ·) asked,
        .cons conversation conversations, ?_, ?_, ?_⟩
      · rw [List.flatten_cons, List.map_append, ids, ids', List.length_append,
          ← List.range'_append_1]
      · rw [List.flatten_cons, List.map_append, told, told', List.length_append, List.length_append,
          ← List.range'_append_1, List.map_append]
      · rw [interpret_askAll_cons run, run', List.flatten_cons, List.length_append, Nat.add_assoc,
          List.append_assoc]

/-- All that passes over the life of a client, whatever it is asked and whatever it is answered: one
conversation for each call, and requests that are numbered from one on. -/
theorem askAll_conversations (replies : Nat → Reply) (calls : List Chain.Call) :
    ∃ results groups id passed,
      Program.interpret (node replies) ((askAll calls).run 1) [] = ((results, id), passed) ∧
      results.map (·.1) = calls ∧ passed = groups.flatten ∧
      List.Forall₂ (fun a exchanges => Conversation a.1 exchanges a.2) results groups ∧
      passed.map (·.1.id) = List.range' 1 passed.length ∧
      passed.map (·.2) = (List.range passed.length).map replies := by
  obtain ⟨results, groups, asked, conversations, ids, told, run⟩ :=
    conversations_of_askAll replies calls 1 []
  refine ⟨results, groups, _, _, run, asked, rfl, conversations, ids, ?_⟩
  rw [List.range_eq_range']
  exact told

/-- Two requests are lost, and then all is well. -/
def sampleReplies (n : Nat) : Reply :=
  if n < 2 then .lost else .answered 200 (Text.utf8 "\x7b\"result\":\"0x10\"\x7d".toList)

example :
    (Program.interpret (node sampleReplies) ((askAll [.latestBlock, .latestBlock]).run 1) []).2.map
      (·.1.id) = [1, 2, 3, 4] := by
  decide +kernel

end VaultTransfers.Node
