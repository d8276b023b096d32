import VaultTransfers.Proofs.Orders.Direct
import VaultTransfers.Proofs.Orders.Finality

/-!
The latest request stands. Whatever the order in which the requests of a wallet
come, and however often each of them comes, they leave one open withdrawal, that
of the request with the greatest place in the chain. A request on its way is
compared with the one that stands only; that the greatest is left in the end is
an induction on the requests still to come.
-/

namespace VaultTransfers

namespace Message.Alike

variable {m n : Message}

theorem position_eq (alike : m.Alike n) : m.position = n.position := by
  rw [← alike]
  rfl

theorem quote_eq (alike : m.Alike n) : m.quote = n.quote := by
  rw [← alike]
  rfl

end Message.Alike

namespace Materialize

/-- Requests of one wallet that can be quoted, in any order and with repetitions; messages of one
key are one request, and so are messages of one place in the chain. -/
structure IsRequests (w : String) (ms : List Message) : Prop where
  wallet : ∀ m ∈ ms, m.wallet = w
  kind : ∀ m ∈ ms, m.kind = .withdrawalRequested
  sound : ∀ m ∈ ms, m.IsSound
  keys : ∀ m ∈ ms, ∀ n ∈ ms, m.key = n.key → m.Alike n
  positions : ∀ m ∈ ms, ∀ n ∈ ms, m.position = n.position → m.Alike n

/-- The open withdrawal of a request. -/
def requestRow (id : OrderId) (m : Message) : Order :=
  orderOf id m .withdrawal .inProgress m.quote

/-- The later of the request that stands and one that comes. -/
def laterRequest (standing coming : Message) : Message :=
  if coming.position.before standing.position then standing else coming

/-- A message that none of the others is behind in the chain. -/
structure IsLatest (ms : List Message) (last : Message) : Prop where
  among : last ∈ ms
  notBefore : ∀ m ∈ ms, m.position.notAfter last.position = true

section

variable {w : String} {as bs : List Arrival} {ms ns : List Message} {m n last : Message}
  {id : OrderId}

theorem IsRequests.subset (requests : IsRequests w ms) (among : ∀ m ∈ ns, m ∈ ms) :
    IsRequests w ns where
  wallet m member := requests.wallet m (among m member)
  kind m member := requests.kind m (among m member)
  sound m member := requests.sound m (among m member)
  keys m member n member' := requests.keys m (among m member) n (among n member')
  positions m member n member' := requests.positions m (among m member) n (among n member')

theorem requestRow_eq_of_alike (alike : m.Alike n) : requestRow id m = requestRow id n := by
  rw [requestRow, alike.quote_eq]
  exact orderOf_eq_of_alike alike

theorem estimate_eq_quote {request : WithdrawalRequest} (sound : m.IsSound)
    (read : m.payload = .ok (.withdrawalRequested request)) :
    Amount.estimate m.amount request.minPrice = .ok m.quote := by
  rw [Message.IsSound, read] at sound
  obtain ⟨e, computed⟩ := sound
  rw [Message.quote, read]
  simp only [computed]
  cases e <;> rfl

theorem laterRequest_mem (ms : List Message) : laterRequest m n ∈ m :: n :: ms := by
  unfold laterRequest
  split <;> simp

theorem notAfter_laterRequest :
    m.position.notAfter (laterRequest m n).position = true ∧
      n.position.notAfter (laterRequest m n).position = true := by
  unfold laterRequest Position.notAfter
  split
  · rename_i older
    simp [Position.not_before_self, Position.not_before_of_before older]
  · rename_i older
    simp [Position.not_before_self, older]

/-- The latest of all is the latest once the earlier of two has been dropped. -/
theorem IsLatest.of_laterRequest (latest : IsLatest (laterRequest m n :: ms) last) :
    IsLatest (m :: n :: ms) last where
  among := by
    rcases List.mem_cons.mp latest.among with rfl | member
    · exact laterRequest_mem ms
    · simp [member]
  notBefore k member := by
    have later := latest.notBefore _ List.mem_cons_self
    rcases List.mem_cons.mp member with rfl | member
    · exact Position.notAfter_trans notAfter_laterRequest.1 later
    · rcases List.mem_cons.mp member with rfl | member
      · exact Position.notAfter_trans notAfter_laterRequest.2 later
      · exact latest.notBefore k (List.mem_cons_of_mem _ member)

theorem IsLatest.congr (same : ∀ m, m ∈ ns ↔ m ∈ ms) (latest : IsLatest ms last) :
    IsLatest ns last where
  among := (same last).mpr latest.among
  notBefore m member := latest.notBefore m ((same m).mp member)

theorem IsRequests.alike_of_isLatest (requests : IsRequests w ms) (first : IsLatest ms m)
    (second : IsLatest ms n) : m.Alike n := by
  refine requests.positions m first.among n second.among ?_
  by_contra other
  have earlier := Position.before_of_notAfter (second.notBefore m first.among) other
  have later := first.notBefore n second.among
  rw [Position.notAfter, earlier] at later
  cases later

theorem revised_requestRow (same : n.wallet = m.wallet) :
    revised (requestRow id m) n n.quote = requestRow id n := by
  simp only [revised, requestRow, orderOf, same]

theorem byKey_of_standing (k : EventKey) :
    OrderTable.byKey k ⟨[requestRow id m]⟩ =
      if m.key = k then some (requestRow id m) else none := by
  have key : (requestRow id m).key = m.key := rfl
  by_cases known : m.key = k
  · simp [OrderTable.byKey, key, known]
  · simp [OrderTable.byKey, key, known]

/-- The request that stands is the wallet's, whether its amount is asked for or another one. -/
theorem openIn_of_standing (same : n.wallet = m.wallet) :
    openIn ⟨[requestRow id m]⟩ n = some (requestRow id m) := by
  have isOpen : (requestRow id m).isOpenOf n.wallet = true := by
    simp [Order.isOpenOf, Order.isOpen, requestRow, orderOf, same]
  have latest : OrderTable.openOf n.wallet ⟨[requestRow id m]⟩ = some (requestRow id m) := by
    rw [OrderTable.openOf, List.filter_singleton, isOpen]
    rfl
  rw [openIn, latest, OrderTable.openOfAmount, List.filter_singleton, isOpen, Bool.true_and]
  cases decide ((requestRow id m).amount = n.amount) with
  | true => rfl
  | false => rfl

theorem answer_update_of_standing (same : n.wallet = m.wallet) :
    OrderTable.answer (.update (revised (requestRow id m) n n.quote)) ⟨[requestRow id m]⟩ =
      (.ok (), ⟨[requestRow id n]⟩) := by
  have found : decide ((requestRow id m).id = (requestRow id n).id) = true := decide_eq_true rfl
  have rows : Store.changeFirst (·.id = (requestRow id n).id) (fun _ => requestRow id n)
      [requestRow id m] = [requestRow id n] := by
    rw [Store.changeFirst, if_pos found]
  rw [revised_requestRow same, OrderTable.answer, OrderTable.update, rows]
  rfl

/-- A request that comes while one stands leaves the later of the two. -/
theorem settle_of_standing (id : OrderId) {a : Arrival} (same : a.message.wallet = m.wallet)
    (request : a.message.kind = .withdrawalRequested) (sound : a.message.IsSound)
    (keys : a.message.key = m.key → a.message.Alike m) :
    ∃ applied, settle a ⟨[requestRow id m]⟩ =
      (.ok applied, ⟨[requestRow id (laterRequest m a.message)]⟩) := by
  have position : (requestRow id m).position = m.position := rfl
  have pending : (requestRow id m).status ≠ .completed := nofun
  rw [settle, verdict_of_isSound sound, request]
  simp only [requestVerdict, byKey_of_standing, openIn_of_standing same, position, laterRequest]
  by_cases known : m.key = a.message.key
  · -- the same message again: it is not before itself, and rewrites its row
    have place := (keys known.symm).position_eq
    rw [if_pos known, place, Position.not_before_self]
    refine ⟨.requestRevised, ?_⟩
    simp [pending, Verdict.carryOut, answer_update_of_standing same]
  · rw [if_neg known]
    by_cases older : a.message.position.before m.position = true
    · refine ⟨.requestIgnored, ?_⟩
      simp [older, Verdict.carryOut]
    · refine ⟨.requestRevised, ?_⟩
      simp [older, Verdict.carryOut, answer_update_of_standing same]

theorem settle_of_empty {a : Arrival} (request : a.message.kind = .withdrawalRequested)
    (sound : a.message.IsSound) :
    settle a .empty = (.ok .requestOpened, ⟨[requestRow a.fresh a.message]⟩) := by
  rw [settle, verdict_of_isSound sound, request]
  rfl

/-- While a request stands, the latest of it and those to come is left in the end. -/
theorem applyAll_of_standing (id : OrderId) (requests : IsRequests w (m :: as.map (·.message))) :
    ∃ last, IsLatest (m :: as.map (·.message)) last ∧
      ∃ answers : List Applied,
        applyAll as ⟨[requestRow id m]⟩ = (answers.map .ok, ⟨[requestRow id last]⟩) := by
  -- what stands changes from one message to the next
  induction as generalizing m with
  | nil =>
      refine ⟨m, ⟨List.mem_cons_self, ?_⟩, [], rfl⟩
      intro n member
      obtain rfl := List.mem_singleton.mp member
      simp [Position.notAfter, Position.not_before_self]
  | cons a as ih =>
      have standing : m ∈ m :: (a :: as).map (·.message) := List.mem_cons_self
      have coming : a.message ∈ m :: (a :: as).map (·.message) := by simp
      have same : a.message.wallet = m.wallet := by
        rw [requests.wallet _ coming, requests.wallet m standing]
      obtain ⟨applied, settled⟩ := settle_of_standing id same (requests.kind _ coming)
        (requests.sound _ coming) (requests.keys _ coming m standing)
      have rest : IsRequests w (laterRequest m a.message :: as.map (·.message)) := by
        refine requests.subset fun n member => ?_
        rcases List.mem_cons.mp member with rfl | member
        · exact laterRequest_mem _
        · simp [member]
      obtain ⟨last, latest, answers, left⟩ := ih rest
      refine ⟨last, latest.of_laterRequest, applied :: answers, ?_⟩
      rw [applyAll_cons, settled, left]
      rfl

theorem applyAll_of_requests (some_ : as ≠ []) (requests : IsRequests w (as.map (·.message))) :
    ∃ last, IsLatest (as.map (·.message)) last ∧
      ∃ answers : List Applied,
        applyAll as .empty = (answers.map .ok, ⟨[requestRow (as.head some_).fresh last]⟩) := by
  cases as with
  | nil => exact absurd rfl some_
  | cons a as =>
      have first : a.message ∈ (a :: as).map (·.message) := by simp
      obtain ⟨last, latest, answers, left⟩ := applyAll_of_standing a.fresh requests
      refine ⟨last, latest, .requestOpened :: answers, ?_⟩
      rw [applyAll_cons, settle_of_empty (requests.kind _ first) (requests.sound _ first), left]
      rfl

/-- The requests of a wallet leave one open withdrawal, that of the request with the greatest place
in the chain, in whatever order they come and however often: other deliveries of the same requests
leave the same row under an identity of its own. -/
theorem latest_request_wins (some_ : as ≠ []) (requests : IsRequests w (as.map (·.message))) :
    ∃ last, IsLatest (as.map (·.message)) last ∧
      (∀ request, last.payload = .ok (.withdrawalRequested request) →
        Amount.estimate last.amount request.minPrice = .ok last.quote) ∧
      (∃ answers : List Applied,
        applyAll as .empty = (answers.map .ok,
          ⟨[orderOf (as.head some_).fresh last .withdrawal .inProgress last.quote]⟩)) ∧
      ∀ bs : List Arrival, (∀ m, m ∈ bs.map (·.message) ↔ m ∈ as.map (·.message)) →
        (applyAll bs .empty).2.orders.map Order.anonymous =
          (applyAll as .empty).2.orders.map Order.anonymous := by
  obtain ⟨last, latest, answers, left⟩ := applyAll_of_requests some_ requests
  refine ⟨last, latest, fun _ => estimate_eq_quote (requests.sound last latest.among),
    ⟨answers, left⟩, ?_⟩
  intro bs same
  have some' : bs ≠ [] := by
    rintro rfl
    simpa using (same last).mpr latest.among
  have requests' := requests.subset fun m => (same m).mp
  obtain ⟨last', latest', answers', left'⟩ := applyAll_of_requests some' requests'
  have alike := requests.alike_of_isLatest (latest'.congr fun m => (same m).symm) latest
  rw [left, left']
  simp only [List.map_cons, List.map_nil]
  rw [requestRow_eq_of_alike alike]
  rfl

end

/-- Three requests out of order, the latest of them twice. -/
def sampleLate : List Arrival :=
  [sampleRequest "w" 2, sampleRequest "w" 3, sampleRequest "w" 1,
    sampleReplay (sampleRequest "w" 3)]

theorem isRequests_sampleLate : IsRequests "w" (sampleLate.map (·.message)) := by
  have alike : ∀ m ∈ sampleLate.map (·.message), ∀ n ∈ sampleLate.map (·.message),
      m.blockNumber = n.blockNumber → m.Alike n := by
    simp only [sampleLate, List.map_cons, List.map_nil, List.mem_cons, List.not_mem_nil, or_false]
    rintro m (rfl | rfl | rfl | rfl) n (rfl | rfl | rfl | rfl) same
    all_goals first
      | exact absurd same (by decide)
      | rfl
  refine ⟨by decide, by decide, ?_, fun m member n member' same => ?_,
    fun m member n member' same => alike m member n member' (Position.mk.inj same).1⟩
  · have again := isSound_sampleRequest "w" 3
    simp only [sampleLate, List.forall_mem_map, List.forall_mem_cons]
    refine ⟨isSound_sampleRequest "w" 2, again, isSound_sampleRequest "w" 1, again, ?_⟩
    exact fun _ member => absurd member List.not_mem_nil
  · have apart : ∀ m ∈ sampleLate.map (·.message), ∀ n ∈ sampleLate.map (·.message),
        m.key = n.key → m.blockNumber = n.blockNumber := by decide
    exact alike m member n member' (apart m member n member' same)

theorem payload_of_mem_sampleLate : ∀ m ∈ sampleLate.map (·.message), m.payload =
    .ok (.withdrawalRequested ⟨"w", "share", "token", "5", "0", "100000000", "0"⟩) := by
  have asked (block : Nat) : (sampleRequest "w" block).message.payload =
      .ok (.withdrawalRequested ⟨"w", "share", "token", "5", "0", "100000000", "0"⟩) :=
    Message.payload_ofEvent _ _
  simp only [sampleLate, List.map_cons, List.map_nil, List.mem_cons, List.not_mem_nil, or_false]
  rintro m (rfl | rfl | rfl | rfl)
  exacts [asked 2, asked 3, asked 1, asked 3]

theorem latest_request_wins_of_late_delivery :
    ∃ last, IsLatest (sampleLate.map (·.message)) last ∧ last.blockNumber = 3 ∧
      (applyAll sampleLate .empty).2.orders =
        [orderOf ⟨2⟩ last .withdrawal .inProgress (some "5.000000000000000000")] ∧
      (applyAll sampleLate.reverse .empty).2.orders.map Order.anonymous =
        (applyAll sampleLate .empty).2.orders.map Order.anonymous := by
  obtain ⟨last, latest, quotes, ⟨answers, left⟩, others⟩ :=
    latest_request_wins (by decide) isRequests_sampleLate
  have greatest : ∀ n ∈ sampleLate.map (·.message),
      (∀ m ∈ sampleLate.map (·.message), m.position.notAfter n.position = true) →
        n.blockNumber = 3 := by decide
  have block : last.blockNumber = 3 := greatest last latest.among latest.notBefore
  have five : ∀ m ∈ sampleLate.map (·.message), m.amount = "5" := by decide
  have quoted : last.quote = some "5.000000000000000000" := by
    have asked := quotes ⟨"w", "share", "token", "5", "0", "100000000", "0"⟩
      (payload_of_mem_sampleLate last latest.among)
    rw [five last latest.among] at asked
    exact (Except.ok.inj asked).symm
  refine ⟨last, latest, block, ?_, others sampleLate.reverse ?_⟩
  · rw [left, quoted]
    rfl
  · intro m
    rw [List.map_reverse, List.mem_reverse]

end Materialize

end VaultTransfers
