import Mathlib.Data.List.Nodup
import VaultTransfers.Pipeline.Scan
import VaultTransfers.Session.World

/-!
The part of a scan that asks nothing but the chain. A chain that stands still
gives the same answers whatever happens to the stores meanwhile, so that what
this part comes to can be told once, for a scanner that is alone and for one
among many.
-/

namespace VaultTransfers

/-- The event of a candidate, if the time of its block is known. -/
def Session.Ledger.event? (ledger : Session.Ledger) (c : Scan.Candidate) : Option VaultEvent :=
  ((ledger.secondsOf c.log.blockNumber).bind Instant.ofUnix?).map (c.log.toEvent c.decoded)

namespace Scan

open Session (Ledger)

/-- The program asks the chain only, and nothing of it that changes; its result fits, whichever of
its calls fail. -/
inductive Consults (ledger : Ledger) {α : Type} (fits : α → Prop) :
    Program Scan.interface α → Prop
  | done {a : α} (holds : fits a) : Consults ledger fits (.done a)
  | call {c : Chain.Call} {next : Scan.Reply (.chain c) → Program Scan.interface α}
      (other : c ≠ .latestBlock) (answered : Consults ledger fits (next (ledger.answer c)))
      (failed : ∀ fault, Consults ledger fits (next (.error fault))) :
      Consults ledger fits (.call (.chain c) next)

theorem Consults.bind {ledger : Ledger} {α β : Type} {p : Program Scan.interface α}
    {f : α → Program Scan.interface β} {fits : α → Prop} {fits' : β → Prop}
    (first : Consults ledger fits p) (rest : ∀ a, fits a → Consults ledger fits' (f a)) :
    Consults ledger fits' (p >>= f) := by
  induction first with
  | done holds => exact rest _ holds
  | call other _ _ answered failed => exact .call other answered failed

/-- The task asks the chain only, and what it answers is as stated. -/
def Consulting (ledger : Ledger) {α : Type} (p : Task α) (facts : α → Prop) : Prop :=
  Consults ledger (fun r => ∀ a, r = .ok a → facts a) p.run

namespace Consulting

variable {ledger : Ledger} {α β : Type} {facts : α → Prop} {facts' : β → Prop}

theorem pure {a : α} (holds : facts a) : Consulting ledger (Pure.pure a) facts := by
  refine .done ?_
  rintro b same
  cases same
  exact holds

theorem throw (fault : Fault) : Consulting ledger (throw fault : Task α) facts := by
  refine .done ?_
  rintro b same
  cases same

theorem bind {p : Task α} {f : α → Task β} (first : Consulting ledger p facts)
    (rest : ∀ a, facts a → Consulting ledger (f a) facts') : Consulting ledger (p >>= f) facts' := by
  refine Consults.bind first ?_
  intro r told
  cases r with
  | ok a => exact rest a (told a rfl)
  | error fault => exact throw fault

theorem mono {p : Task α} {weaker : α → Prop} (consulting : Consulting ledger p facts)
    (imp : ∀ a, facts a → weaker a) : Consulting ledger p weaker := by
  rw [← bind_pure p]
  exact consulting.bind fun a holds => pure (imp a holds)

theorem askChain {c : Chain.Call} (other : c ≠ .latestBlock) :
    Consulting ledger (askChain c) fun a => ledger.answer c = .ok a := by
  refine Consults.call other ?_ ?_
  · cases ledger.answer c with
    | ok a => exact pure rfl
    | error fault => exact throw _
  · intro fault
    exact throw _

theorem lookUpAll {κ β : Type} {ask : κ → Task β} {facts : κ → β → Prop}
    (asked : ∀ k, Consulting ledger (ask k) (facts k)) (ks : List κ) :
    Consulting ledger (lookUpAll ask ks) fun answers =>
      answers.map Prod.fst = ks ∧ ∀ a ∈ answers, facts a.1 a.2 := by
  induction ks with
  | nil => exact pure ⟨rfl, by simp⟩
  | cons k ks ih =>
      refine (asked k).bind ?_
      intro b told
      refine ih.bind ?_
      rintro answers ⟨rfl, all⟩
      refine pure ⟨rfl, ?_⟩
      intro a member
      rcases List.mem_cons.mp member with rfl | later
      · exact told
      · exact all a later

end Consulting

theorem lookup_of_mem {κ β : Type} [BEq κ] [LawfulBEq κ] {answers : List (κ × β)} {k : κ}
    (facts : κ → β → Prop) (all : ∀ a ∈ answers, facts a.1 a.2)
    (asked : k ∈ answers.map Prod.fst) : ∃ b, answers.lookup k = some b ∧ facts k b := by
  induction answers with
  | nil => simp at asked
  | cons a answers ih =>
      obtain ⟨k', b⟩ := a
      cases same : k == k' with
      | true =>
          obtain rfl := eq_of_beq same
          exact ⟨b, by rw [List.lookup_cons, same], all _ List.mem_cons_self⟩
      | false =>
          rw [List.lookup_cons, same]
          refine ih (fun a member => all a (List.mem_cons_of_mem _ member)) ?_
          rcases List.mem_cons.mp asked with rfl | later
          · rw [beq_self_eq_true] at same
            cases same
          · exact later

theorem mem_distinctInOrder {n : Nat} {ns : List Nat} : n ∈ distinctInOrder ns ↔ n ∈ ns := by
  rw [distinctInOrder, List.mem_eraseDups, List.mem_mergeSort]

/-- The transaction of every candidate is asked about. -/
theorem mem_txHashes {cs : List Candidate} {c : Candidate} (member : c ∈ cs) :
    c.log.txHash ∈ (distinctInOrder (cs.map (·.log.txHash.toNat))).map Word.ofNat := by
  refine List.mem_map.mpr ⟨c.log.txHash.toNat, ?_, ?_⟩
  · exact mem_distinctInOrder.mpr (List.mem_map_of_mem member)
  · exact congrArg Word.mk (BitVec.ofNat_toNat 256 c.log.txHash.bits)

/-- The block of every candidate is asked about. -/
theorem mem_blockNumbers {cs : List Candidate} {c : Candidate} (member : c ∈ cs) :
    c.log.blockNumber ∈ (distinctInOrder (cs.map (·.log.blockNumber.toNat))).map UInt64.ofNat := by
  refine List.mem_map.mpr ⟨c.log.blockNumber.toNat, ?_, UInt64.ofNat_toNat⟩
  exact mem_distinctInOrder.mpr (List.mem_map_of_mem member)

section

variable {ledger : Ledger}

theorem consulting_outcomes (cs : List Candidate) :
    Consulting ledger (outcomes cs) fun answers => ∀ c ∈ cs,
      (answers.lookup c.log.txHash).getD false = decide (ledger.statusOf c.log.txHash = .ok) ∧
        ledger.statusOf c.log.txHash ≠ .missing := by
  have asked (txHash : Word) : Consulting ledger (askChain (.succeeded txHash)) fun b =>
      b = decide (ledger.statusOf txHash = .ok) ∧ ledger.statusOf txHash ≠ .missing := by
    refine (Consulting.askChain (by simp)).mono ?_
    intro b answered
    simp only [Session.Ledger.answer] at answered
    cases status : ledger.statusOf txHash <;> simp only [status] at answered
    case missing => cases answered
    all_goals exact ⟨(Except.ok.inj answered).symm, by simp⟩
  refine (Consulting.lookUpAll asked _).mono ?_
  rintro answers ⟨keys, all⟩ c member
  obtain ⟨b, found, rfl, status⟩ := lookup_of_mem (fun txHash b =>
    b = decide (ledger.statusOf txHash = .ok) ∧ ledger.statusOf txHash ≠ .missing) all
    (keys ▸ mem_txHashes member)
  exact ⟨by rw [found, Option.getD_some], status⟩

theorem consulting_blockTimes (cs : List Candidate) :
    Consulting ledger (blockTimes cs) fun answers => ∀ c ∈ cs, ∃ time,
      answers.lookup c.log.blockNumber = some time ∧
        (ledger.secondsOf c.log.blockNumber).bind Instant.ofUnix? = some time := by
  have asked (number : UInt64) : Consulting ledger (askChain (.blockTime number)) fun time =>
      (ledger.secondsOf number).bind Instant.ofUnix? = some time := by
    refine (Consulting.askChain (by simp)).mono ?_
    intro time answered
    simp only [Session.Ledger.answer] at answered
    cases known : (ledger.secondsOf number).bind Instant.ofUnix? <;> simp only [known] at answered
    case none => cases answered
    case some => exact congrArg some (Except.ok.inj answered)
  refine (Consulting.lookUpAll asked _).mono ?_
  rintro answers ⟨keys, all⟩ c member
  exact lookup_of_mem (fun number time =>
    (ledger.secondsOf number).bind Instant.ofUnix? = some time) all (keys ▸ mem_blockNumbers member)

theorem consulting_dated {times : List (UInt64 × Instant)} {cs : List Candidate}
    (known : ∀ c ∈ cs, ∃ time, times.lookup c.log.blockNumber = some time ∧
      (ledger.secondsOf c.log.blockNumber).bind Instant.ofUnix? = some time) :
    Consulting ledger (dated times cs) fun es =>
      es = cs.filterMap ledger.event? ∧ ∀ c ∈ cs, (ledger.event? c).isSome = true := by
  induction cs with
  | nil => exact Consulting.pure ⟨rfl, by simp⟩
  | cons c cs ih =>
      obtain ⟨time, found, same⟩ := known c List.mem_cons_self
      have event : ledger.event? c = some (c.log.toEvent c.decoded time) := by
        rw [Session.Ledger.event?, same]
        rfl
      unfold dated
      simp only [found]
      refine (ih fun c member => known c (List.mem_cons_of_mem _ member)).bind ?_
      rintro es ⟨rfl, all⟩
      refine Consulting.pure ⟨by rw [List.filterMap_cons_some event], ?_⟩
      intro d member
      rcases List.mem_cons.mp member with rfl | later
      · rw [event]
        rfl
      · exact all d later

/-- What becomes of the candidates: those whose transactions have failed drop out, and the others
are told as events. -/
theorem consulting_rest (found : List Candidate) :
    Consulting ledger (do
        let succeeded ← outcomes found
        let kept := found.filter fun c => (succeeded.lookup c.log.txHash).getD false
        dated (← blockTimes kept) kept) fun es =>
      let kept := found.filter fun c => ledger.statusOf c.log.txHash = .ok
      es = kept.filterMap ledger.event? ∧ (∀ c ∈ kept, (ledger.event? c).isSome = true) ∧
        ∀ c ∈ found, ledger.statusOf c.log.txHash ≠ .missing := by
  refine (consulting_outcomes found).bind ?_
  intro succeeded known
  rw [← List.filter_congr fun c member => (known c member).1]
  refine (consulting_blockTimes _).bind ?_
  intro times dates
  refine (consulting_dated dates).mono ?_
  exact fun es told => ⟨told.1, told.2, fun c member => (known c member).2⟩

end

theorem emitted_of_resolve {contracts : Contracts} {log : Log} {decoded : DecodedLog}
    (resolved : log.resolve contracts = .ok (.event decoded)) :
    contracts.emitters.contains log.address = true ∧
      log.topics.head?.any (EventKind.all.map EventKind.topic).contains = true := by
  unfold Log.resolve at resolved
  cases known : log.topics.head?.bind EventKind.ofTopic? with
  | none =>
      simp only [known] at resolved
      cases resolved
  | some kind =>
      simp only [known] at resolved
      split at resolved
      · cases resolved
      · rename_i emitter
        rw [ne_eq, not_not] at emitter
        obtain ⟨topic, head, told⟩ := Option.bind_eq_some_iff.mp known
        have same : kind.topic = topic := by simpa using List.find?_some told
        rw [head, Option.any_some, ← same, emitter]
        constructor
        · cases kind <;> simp [Contracts.emitter, Contracts.emitters]
        · cases kind <;> simp [EventKind.all]

/-- Whether a block is behind `low` and not behind `high`. -/
def within (low high block : UInt64) : Bool :=
  low < block && block ≤ high

theorem within_iff {low high block : UInt64} :
    within low high block = true ↔ low < block ∧ block ≤ high := by
  simp [within]

/-- Whether a log is given out to those who ask for such emitters and topics, wherever it stands. -/
def selects (ledger : Ledger) (emitters : List Address) (topics : List Word) (log : Log) : Bool :=
  ledger.unfiltered || emitters.contains log.address && log.topics.head?.any topics.contains

theorem answers_eq (ledger : Ledger) (emitters : List Address) (topics : List Word) (log : Log)
    {after last : UInt64} (later : after < last) :
    ledger.answers (after + 1) last emitters topics log =
      (within after last log.blockNumber && selects ledger emitters topics log) := by
  have next : (after + 1).toNat = after.toNat + 1 := by
    have bound := last.toNat_lt
    rw [UInt64.lt_iff_toNat_lt] at later
    rw [UInt64.toNat_add]
    exact Nat.mod_eq_of_lt (by simp only [UInt64.toNat_one]; omega)
  have first : (after + 1 ≤ log.blockNumber) = (after < log.blockNumber) := by
    rw [UInt64.le_iff_toNat_le, next, UInt64.lt_iff_toNat_lt, Nat.succ_le_iff]
  simp only [Session.Ledger.answers, first, within, selects]

theorem selects_of_resolve {contracts : Contracts} {log : Log} {decoded : DecodedLog}
    (ledger : Ledger) (resolved : log.resolve contracts = .ok (.event decoded)) :
    selects ledger contracts.emitters (EventKind.all.map EventKind.topic) log = true := by
  obtain ⟨emitter, topic⟩ := emitted_of_resolve resolved
  rw [selects, emitter, topic, Bool.and_true, Bool.or_true]

/-- A log that means an event is left out of the answer for no other reason than its block. -/
theorem answers_of_resolve {contracts : Contracts} {log : Log} {decoded : DecodedLog}
    (ledger : Ledger) (resolved : log.resolve contracts = .ok (.event decoded))
    {after last : UInt64} (later : after < last) :
    ledger.answers (after + 1) last contracts.emitters (EventKind.all.map EventKind.topic) log =
      within after last log.blockNumber := by
  rw [answers_eq ledger _ _ log later, selects_of_resolve ledger resolved, Bool.and_true]

end Scan

end VaultTransfers
