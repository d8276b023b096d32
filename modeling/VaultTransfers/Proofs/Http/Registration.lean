import VaultTransfers.Pipeline.Scan
import VaultTransfers.Proofs.Http.Serving
import VaultTransfers.Proofs.Orders.Closing
import VaultTransfers.Proofs.Scan.Chunking

/-!
The wallets that users register are those that the scanner finds watched. The
two meet in the watch list only, where each spells an address in its own way of
reaching the checksummed form: a user's digits in any letter case, and the bytes
of a log's topic. As that form tells the bytes, they agree on every address.
-/

namespace VaultTransfers

/-- Which topic of the event's logs is the account that the event is about. -/
def EventKind.subjectTopic : EventKind → Nat
  | deposit => 2
  | withdrawalRequested | withdrawalCompleted => 1

namespace Log

/-- The account that a log is about: who receives a deposit, or whose withdrawal it is. -/
def subject? (log : Log) : Option Address := do
  let kind ← log.topics.head?.bind EventKind.ofTopic?
  let topic ← log.topics[kind.subjectTopic]?
  return topic.address

theorem subject_of_resolve {contracts : Contracts} {log : Log} {decoded : DecodedLog}
    (resolved : log.resolve contracts = .ok (.event decoded)) :
    ∃ a, log.subject? = some a ∧ decoded.wallet = a.checksummed := by
  obtain ⟨kind, words, known, cut, meaning⟩ := words_of_resolve resolved
  obtain ⟨⟨head, rest, topics⟩, -⟩ := eventWords_eq_ok cut
  rw [subject?, known, topics]
  cases kind with
  | deposit =>
      simp only [ofWords, ofDeposit] at meaning
      split at meaning
      · cases meaning
      · rw [← Resolution.event.inj meaning]
        exact ⟨words.second.address, rfl, rfl⟩
  | withdrawalRequested =>
      simp only [ofWords, ofRequest] at meaning
      split at meaning
      · cases meaning
      · rw [← Resolution.event.inj meaning]
        exact ⟨words.first.address, rfl, rfl⟩
  | withdrawalCompleted =>
      rw [← Resolution.event.inj meaning]
      exact ⟨words.first.address, rfl, rfl⟩

end Log

namespace Scan

/-- What a scanner may be told of the wallets of a list; it may have forgotten what it remembered. -/
def consults (list : WatchList) : Service Scan.interface (List Watched)
  | .knows w, remembered, reply, after => (reply = true → w ∈ remembered) ∧ after = remembered
  | .remember w, remembered, _, after => after = w :: remembered
  | .watchList c, remembered, reply, after =>
    reply = (WatchList.answer c list).1 ∧ after = remembered
  | _, remembered, _, after => after = remembered

/-- A wallet is found to be watched if and only if it is on the list, where no more is remembered
than the list has. -/
theorem runs_isWatched_iff {list : WatchList} {remembered : List Watched} {w : Watched}
    (known : ∀ v ∈ remembered, list.contains v = true) (result : Except Fault Bool) :
    (∃ after, Program.Runs (consults list) (isWatched w).run remembered result after) ↔
      result = .ok (list.contains w) := by
  have answered : (WatchList.answer (.contains w) list).1 = .ok (list.contains w) := rfl
  constructor
  · rintro ⟨after, b, _, ⟨told, rfl⟩, run⟩
    cases b with
    | true =>
        obtain ⟨rfl, -⟩ := run
        rw [known w (told rfl)]
    | false =>
        obtain ⟨reply, _, ⟨rfl, rfl⟩, run⟩ := run
        rw [answered] at run
        cases found : list.contains w with
        | true =>
            rw [found] at run
            obtain ⟨_, _, -, rfl, -⟩ := run
            rfl
        | false =>
            rw [found] at run
            exact run.1
  · rintro rfl
    -- nothing needs to be remembered for it
    have forgotten : consults list (.knows w) remembered false remembered := ⟨by simp, rfl⟩
    have asked : consults list (.watchList (.contains w)) remembered (.ok (list.contains w))
        remembered := ⟨rfl, rfl⟩
    cases found : list.contains w with
    | true =>
        rw [found] at asked
        exact ⟨w :: remembered, false, _, forgotten, .ok true, _, asked, (), _, rfl, rfl, rfl⟩
    | false =>
        rw [found] at asked
        exact ⟨remembered, false, _, forgotten, .ok false, _, asked, rfl, rfl⟩

end Scan

namespace Http

/-- Answers requests one after the other. -/
def serveAll (defaultChain : Int) : List Request → StateM Stores (List Response)
  | [] => return []
  | r :: rs => do
    let response ← serve defaultChain r
    return response :: (← serveAll defaultChain rs)

section

variable {defaultChain chain : Int} {r : Request} {rs : List Request} {s : Stores} {a b : Address}

theorem serveAll_cons : serveAll defaultChain (r :: rs) s =
    ((serve defaultChain r s).1 :: (serveAll defaultChain rs (serve defaultChain r s).2).1,
      (serveAll defaultChain rs (serve defaultChain r s).2).2) := rfl

theorem serveAll_append (later : List Request) : serveAll defaultChain (rs ++ later) s =
    ((serveAll defaultChain rs s).1 ++
        (serveAll defaultChain later (serveAll defaultChain rs s).2).1,
      (serveAll defaultChain later (serveAll defaultChain rs s).2).2) := by
  induction rs generalizing s with
  | nil => rfl
  | cons r rs ih => rw [List.cons_append, serveAll_cons, serveAll_cons, ih, List.cons_append]

theorem length_serveAll : (serveAll defaultChain rs s).1.length = rs.length := by
  induction rs generalizing s with
  | nil => rfl
  | cons r rs ih => rw [serveAll_cons, List.length_cons, List.length_cons, ih]

/-- The response in the place of a request is the one to that request, behind those before it. -/
theorem getElem?_serveAll (later : List Request) :
    (serveAll defaultChain (rs ++ r :: later) s).1[rs.length]? =
      some (serve defaultChain r (serveAll defaultChain rs s).2).1 := by
  have behind : (serveAll defaultChain rs s).1.length ≤ rs.length := Nat.le_of_eq length_serveAll
  rw [serveAll_append, List.getElem?_append_right behind, length_serveAll, Nat.sub_self,
    serveAll_cons]
  rfl

/-- A request registers one address on one chain. -/
theorem Request.Registers.unique {chain' : Int} (first : r.Registers defaultChain a chain)
    (second : r.Registers defaultChain b chain') : a = b ∧ chain = chain' := by
  obtain ⟨registration, ⟨-, -, body⟩, spells, rfl, -⟩ := first
  obtain ⟨registration', ⟨-, -, body'⟩, spells', rfl, -⟩ := second
  obtain rfl := Except.ok.inj (body.symm.trans body')
  exact ⟨congrArg Address.mk (BitVec.eq_of_toNat_eq (spells.unique spells')), rfl⟩

theorem contains_serve :
    (serve defaultChain r s).2.watchList.contains ⟨a.checksummed, chain⟩ = true ↔
      s.watchList.contains ⟨a.checksummed, chain⟩ = true ∨ r.Registers defaultChain a chain := by
  by_cases registering : ∃ b chain', r.Registers defaultChain b chain'
  · obtain ⟨b, chain', registers⟩ := registering
    rw [serve_of_registers registers, WatchList.contains_register, Bool.or_eq_true, beq_iff_eq,
      Watched.mk.injEq, or_comm]
    refine or_congr_right ⟨?_, fun same => ?_⟩
    · rintro ⟨same, rfl⟩
      exact Address.checksummed_inj same ▸ registers
    · obtain ⟨rfl, rfl⟩ := registers.unique same
      exact ⟨rfl, rfl⟩
  · have none_ : ∀ b chain', ¬ r.Registers defaultChain b chain' :=
      fun b chain' registers => registering ⟨b, chain', registers⟩
    rw [snd_serve_of_not_registers none_, or_iff_left (none_ a chain)]

/-- The watch list has what has been registered, and nothing else. -/
theorem contains_serveAll :
    (serveAll defaultChain rs s).2.watchList.contains ⟨a.checksummed, chain⟩ = true ↔
      s.watchList.contains ⟨a.checksummed, chain⟩ = true ∨
        ∃ r ∈ rs, r.Registers defaultChain a chain := by
  induction rs generalizing s with
  | nil =>
      have served : serveAll defaultChain [] s = ([], s) := rfl
      simp [served]
  | cons r rs ih => rw [serveAll_cons, ih, contains_serve, List.exists_mem_cons_iff, or_assoc]

theorem contains_serve_of_contains {w : Watched} (listed : s.watchList.contains w = true) :
    (serve defaultChain r s).2.watchList.contains w = true := by
  by_cases registering : ∃ b chain', r.Registers defaultChain b chain'
  · obtain ⟨b, chain', registers⟩ := registering
    rw [serve_of_registers registers, WatchList.contains_register, listed, Bool.or_true]
  · rw [snd_serve_of_not_registers fun b chain' registers => registering ⟨b, chain', registers⟩]
    exact listed

theorem contains_serveAll_of_contains {w : Watched} (listed : s.watchList.contains w = true) :
    (serveAll defaultChain rs s).2.watchList.contains w = true := by
  induction rs generalizing s with
  | nil => exact listed
  | cons r rs ih => exact ih (contains_serve_of_contains listed)

theorem status_registered (w : Watched) (created : Bool) :
    (registered w created).status = if created then 201 else 200 := rfl

/-- The first request to register an account on a chain creates an entry, and no later one does. -/
theorem status_serve_of_registers {before : List Request} (none_ : s.watchList = .empty)
    (registers : r.Registers defaultChain b chain) :
    ((∃ q ∈ before, q.Registers defaultChain b chain) →
        (serve defaultChain r (serveAll defaultChain before s).2).1.status = 200) ∧
      ((¬ ∃ q ∈ before, q.Registers defaultChain b chain) →
        (serve defaultChain r (serveAll defaultChain before s).2).1.status = 201) := by
  have unlisted : ¬ s.watchList.contains ⟨b.checksummed, chain⟩ = true := by
    simp [none_, WatchList.contains_empty]
  have listed : (serveAll defaultChain before s).2.watchList.contains ⟨b.checksummed, chain⟩ = true ↔
      ∃ q ∈ before, q.Registers defaultChain b chain :=
    contains_serveAll.trans (or_iff_right unlisted)
  rw [serve_of_registers registers, status_registered]
  refine ⟨fun earlier => ?_, fun first => ?_⟩
  · rw [listed.mpr earlier]
    rfl
  · rw [Bool.eq_false_iff.mpr (mt listed.mp first)]
    rfl

/-- After any requests, a log's account is found to be watched if and only if one of the requests
has registered it on the configured chain, in whatever spelling; what the scanner has seen to be
watched meanwhile, and may remember, makes no difference. The first request to register an account
on a chain is answered with 201 and each later one with 200; a request that registers nothing
changes nothing, and if it was meant to register it is told why it does not. -/
theorem watched_iff_registered (settings : Settings) {log : Log} {decoded : DecodedLog}
    (rs : List Request) (remembered : List Watched) (none_ : s.watchList = .empty)
    (resolved : log.resolve settings.contracts = .ok (.event decoded))
    (subject : log.subject? = some a)
    (seen : ∀ w ∈ remembered, ∃ before later, rs = before ++ later ∧
      (serveAll settings.chainId before s).2.watchList.contains w = true) :
    (∃ watched, (watched = true ↔ ∃ r ∈ rs, r.Registers settings.chainId a settings.chainId) ∧
      ∀ result, (∃ after, Program.Runs
          (Scan.consults (serveAll settings.chainId rs s).2.watchList)
          (Scan.isWatched ⟨decoded.wallet, (Scan.Plan.ofSettings settings).chainId⟩).run
          remembered result after) ↔ result = .ok watched) ∧
    ∀ before r later, rs = before ++ r :: later →
      ∃ response, (serveAll settings.chainId rs s).1[before.length]? = some response ∧
      (∀ b chain, r.Registers settings.chainId b chain →
        ((∃ q ∈ before, q.Registers settings.chainId b chain) → response.status = 200) ∧
        ((¬ ∃ q ∈ before, q.Registers settings.chainId b chain) → response.status = 201)) ∧
      ((¬ ∃ b chain, r.Registers settings.chainId b chain) →
        (serveAll settings.chainId (before ++ [r]) s).2 =
            (serveAll settings.chainId before s).2 ∧
          (r.method = "POST" → Route.ofPath? (pathOf r.target) = some .addresses →
            response.status ∈ [400, 415, 422])) := by
  have unlisted {w : Watched} : ¬ s.watchList.contains w = true := by
    simp [none_, WatchList.contains_empty]
  refine ⟨?_, ?_⟩
  · obtain ⟨b, subject', wallet⟩ := Log.subject_of_resolve resolved
    obtain rfl := Option.some.inj (subject'.symm.trans subject)
    have known : ∀ w ∈ remembered,
        (serveAll settings.chainId rs s).2.watchList.contains w = true := by
      intro w member
      obtain ⟨before, later, rfl, listed⟩ := seen w member
      rw [serveAll_append]
      exact contains_serveAll_of_contains listed
    refine ⟨_, contains_serveAll.trans (or_iff_right unlisted), fun result => ?_⟩
    rw [wallet]
    exact Scan.runs_isWatched_iff known result
  · rintro before r later rfl
    refine ⟨_, getElem?_serveAll later, ?_, ?_⟩
    · exact fun b chain registers => status_serve_of_registers none_ registers
    · intro nothing
      have none' : ∀ b chain, ¬ r.Registers settings.chainId b chain :=
        fun b chain registers => nothing ⟨b, chain, registers⟩
      refine ⟨?_, fun method path => ?_⟩
      · rw [serveAll_append, serveAll_cons]
        exact snd_serve_of_not_registers none'
      · exact status_serve_of_not_registers method path none'

end

def sampleRegistration (wallet : String) : Request where
  method := "POST"
  target := "/api/addresses"
  headers := [("Content-Type", "application/json")]
  body := Text.utf8 ("\x7b\"wallet_address\": \"" ++ wallet ++ "\"\x7d").toList

/-- An address is registered in two spellings; the text between them is none. -/
def sampleHistory : List Request :=
  [sampleRegistration " 0x0000000000000000000000000000000000000011", sampleRegistration "0x11",
    sampleRegistration "0x0000000000000000000000000000000000000011"]

theorem watched_of_sampleHistory :
    let served := serveAll 1 sampleHistory ⟨.empty, .empty⟩
    (Materialize.sampleShares.resolve Scan.Walk.sampleSettings.contracts =
        .ok (.event Materialize.sampleRequested) ∧
      Materialize.sampleShares.subject? = some Materialize.sampleUser) ∧
    (∀ result, (∃ after, Program.Runs (Scan.consults served.2.watchList)
        (Scan.isWatched ⟨Materialize.sampleRequested.wallet, 1⟩).run [] result after) ↔
      result = .ok true) ∧
    served.1[0]?.map Response.status = some 201 ∧ served.1[2]?.map Response.status = some 200 := by
  intro served
  have subject : Materialize.sampleShares.subject? = some Materialize.sampleUser := by
    decide +kernel
  have spelled : Text.Spells "0x0000000000000000000000000000000000000011".toList 40
      Materialize.sampleUser.bits.toNat :=
    ⟨"0000000000000000000000000000000000000011".toList, by decide +kernel, by decide,
      List.all_eq_true.mp (by decide +kernel), by decide +kernel⟩
  have spaced : Text.Spells " 0x0000000000000000000000000000000000000011".toList 40
      Materialize.sampleUser.bits.toNat :=
    ⟨"0000000000000000000000000000000000000011".toList, by decide +kernel, by decide,
      List.all_eq_true.mp (by decide +kernel), by decide +kernel⟩
  have first : (sampleRegistration " 0x0000000000000000000000000000000000000011").Registers 1
      Materialize.sampleUser 1 :=
    ⟨⟨" 0x0000000000000000000000000000000000000011", none⟩,
      ⟨rfl, by decide, registrationOf_eq_ok (by decide +kernel) (by decide +kernel)⟩, spaced, rfl,
      by decide⟩
  have again : (sampleRegistration "0x0000000000000000000000000000000000000011").Registers 1
      Materialize.sampleUser 1 :=
    ⟨⟨"0x0000000000000000000000000000000000000011", none⟩,
      ⟨rfl, by decide, registrationOf_eq_ok (by decide +kernel) (by decide +kernel)⟩, spelled, rfl,
      by decide⟩
  obtain ⟨⟨watched, registered, checked⟩, answered⟩ := watched_iff_registered
    Scan.Walk.sampleSettings sampleHistory [] (s := ⟨.empty, .empty⟩) rfl
    Materialize.resolve_sampleShares subject (by simp)
  obtain rfl : watched = true := registered.mpr ⟨_, List.mem_cons_self, first⟩
  refine ⟨⟨Materialize.resolve_sampleShares, subject⟩, checked, ?_, ?_⟩
  · obtain ⟨response, stands, statuses, -⟩ := answered [] _ _ rfl
    have status : response.status = 201 := (statuses _ _ first).2 (by simp)
    exact (congrArg _ stands).trans (congrArg some status)
  · obtain ⟨response, stands, statuses, -⟩ := answered (sampleHistory.take 2) _ [] rfl
    have status : response.status = 200 :=
      (statuses _ _ again).1 ⟨_, List.mem_cons_self, first⟩
    exact (congrArg _ stands).trans (congrArg some status)

end Http

end VaultTransfers
