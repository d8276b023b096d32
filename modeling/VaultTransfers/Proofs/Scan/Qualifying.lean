import VaultTransfers.Proofs.Codec.Date
import VaultTransfers.Proofs.Scan.Consulting
import VaultTransfers.Proofs.Transfer.Discovery

/-!
Which logs of a chain stand for events that are to be recorded, in the order of
the chain. Ranges of blocks that follow each other have the events that they have
together, and no two events have a key or a place in common.
-/

namespace VaultTransfers

open Session (Ledger)

namespace Log

def key (log : Log) : EventKey :=
  ⟨log.txHash.text, log.logIndex⟩

theorem nodup_keys {logs : List Log} (keys : (logs.map fun log => (log.txHash, log.logIndex)).Nodup) :
    (logs.map key).Nodup := by
  have distinct : (logs.map fun log => (log.txHash, log.logIndex)).map
      (fun k => EventKey.mk k.1.text k.2) = logs.map key := by
    rw [List.map_map]
    rfl
  rw [← distinct]
  refine keys.map ?_
  rintro ⟨v, i⟩ ⟨w, j⟩ same
  obtain ⟨texts, places⟩ := EventKey.mk.inj same
  exact Prod.ext (Word.text_inj texts) places

theorem pairwise_inOrder {logs : List Log} (distinct : (logs.map position).Nodup) :
    (inOrder logs).Pairwise fun a b => a.position.before b.position = true := by
  have sorted : (inOrder logs).Pairwise fun a b => a.position.notAfter b.position = true := by
    apply List.pairwise_mergeSort
    · intro a b c first second
      exact Position.notAfter_trans first second
    · intro a b
      exact Position.notAfter_total a.position b.position
  have places : ((inOrder logs).map position).Nodup :=
    ((List.mergeSort_perm logs _).map position).nodup_iff.mpr distinct
  refine (sorted.and (List.pairwise_map.mp places)).imp ?_
  rintro a b ⟨notAfter, other⟩
  exact Position.before_of_notAfter notAfter other

/-- Logs have one order of the chain. -/
theorem eq_of_perm {logs logs' : List Log} (perm : logs.Perm logs')
    (order : logs.Pairwise fun a b => a.position.before b.position = true)
    (order' : logs'.Pairwise fun a b => a.position.before b.position = true) : logs = logs' := by
  refine List.Perm.eq_of_pairwise ?_ order order' perm
  intro a b _ _ first second
  rw [Position.not_before_of_before first] at second
  cases second

theorem inOrder_filter {logs : List Log} (distinct : (logs.map position).Nodup) (q : Log → Bool) :
    inOrder (logs.filter q) = (inOrder logs).filter q := by
  have fewer : ((logs.filter q).map position).Nodup :=
    distinct.sublist (List.filter_sublist.map position)
  refine eq_of_perm ?_ (pairwise_inOrder fewer)
    ((pairwise_inOrder distinct).sublist List.filter_sublist)
  exact (List.mergeSort_perm _ _).trans ((List.mergeSort_perm logs _).filter q).symm

end Log

namespace Scan

/-- In increasing order, a range is made up of a lower and an upper part. -/
theorem filter_within_split {α : Type} {f : α → UInt64} {as : List α}
    (rising : as.Pairwise fun a b => f a ≤ f b) {low mid high : UInt64} (lower : low ≤ mid)
    (upper : mid ≤ high) :
    as.filter (fun a => within low high (f a)) =
      as.filter (fun a => within low mid (f a)) ++ as.filter (fun a => within mid high (f a)) := by
  induction as with
  | nil => rfl
  | cons a as ih =>
      obtain ⟨first, rest⟩ := List.pairwise_cons.mp rising
      by_cases below : f a ≤ mid
      · have notAbove : within mid high (f a) = false := by
          simp [within, UInt64.not_lt.mpr below]
        have inBoth : within low high (f a) = within low mid (f a) := by
          simp [within, below, UInt64.le_trans below upper]
        simp only [List.filter_cons, notAbove, inBoth, ih rest]
        split
        · rfl
        · rfl
      · have later (b : α) (member : b ∈ a :: as) : mid < f b := by
          rcases List.mem_cons.mp member with rfl | behind
          · exact UInt64.not_le.mp below
          · exact UInt64.lt_of_lt_of_le (UInt64.not_le.mp below) (first b behind)
        have empty : (a :: as).filter (fun a => within low mid (f a)) = [] := by
          rw [List.filter_eq_nil_iff]
          intro b member
          simp [within, UInt64.not_le.mpr (later b member)]
        rw [empty, List.nil_append]
        apply List.filter_congr
        intro b member
        simp [within, later b member, UInt64.lt_of_le_of_lt lower (later b member)]


/-- What there is to scan: a chain whose logs have places and keys of their own, and the wallets
that are watched. -/
structure Source where
  plan : Plan
  ledger : Ledger
  watched : WatchList
  positions : (ledger.logs.map Log.position).Nodup
  keys : (ledger.logs.map fun log => (log.txHash, log.logIndex)).Nodup

namespace Source

/-- The log with its meaning, if it means an event of a watched wallet. -/
def candidate? (src : Source) (log : Log) : Option Candidate :=
  match log.resolve src.plan.contracts with
  | .ok (.event decoded) =>
    if src.watched.contains ⟨decoded.wallet, src.plan.chainId⟩ then some ⟨log, decoded⟩ else none
  | _ => none

/-- The logs of the blocks behind `after` up to `last`, in the order of the chain, of which no
reorganisation has taken any back and whose transactions have succeeded. -/
def logsIn (src : Source) (after last : UInt64) : List Log :=
  ((Log.inOrder src.ledger.logs).filter fun log =>
    !log.removed && src.ledger.statusOf log.txHash = .ok).filter fun log =>
      within after last log.blockNumber

def qualifying (src : Source) (after last : UInt64) : List Candidate :=
  (src.logsIn after last).filterMap src.candidate?

def event? (src : Source) (c : Candidate) : Option VaultEvent :=
  ((src.ledger.secondsOf c.log.blockNumber).bind Instant.ofUnix?).map (c.log.toEvent c.decoded)

def events (src : Source) (after last : UInt64) : List VaultEvent :=
  (src.qualifying after last).filterMap src.event?

/-- Every event of the blocks can be told. -/
def Dated (src : Source) (after last : UInt64) : Prop :=
  ∀ c ∈ src.qualifying after last, (src.event? c).isSome

variable {src : Source} {after mid last : UInt64} {log : Log} {c : Candidate} {e : VaultEvent}

theorem event?_eq (src : Source) : src.event? = src.ledger.event? := rfl

theorem candidate?_iff :
    src.candidate? log = some c ↔ c.log = log ∧
      log.resolve src.plan.contracts = .ok (.event c.decoded) ∧
        src.watched.contains ⟨c.decoded.wallet, src.plan.chainId⟩ = true := by
  unfold candidate?
  split
  · rename_i decoded resolved
    rw [resolved]
    constructor
    · intro found
      split at found
      · rename_i watched
        cases found
        exact ⟨rfl, rfl, watched⟩
      · simp at found
    · rintro ⟨rfl, same, watched⟩
      cases same
      rw [if_pos watched]
  · rename_i other
    constructor
    · intro found
      simp at found
    · rintro ⟨rfl, resolved, -⟩
      exact absurd resolved (other c.decoded)

theorem logsIn_append (lower : after ≤ mid) (upper : mid ≤ last) :
    src.logsIn after last = src.logsIn after mid ++ src.logsIn mid last := by
  apply filter_within_split _ lower upper
  refine ((Log.pairwise_inOrder src.positions).sublist List.filter_sublist).imp ?_
  intro a b before
  exact Position.block_le_of_before before

theorem qualifying_append (lower : after ≤ mid) (upper : mid ≤ last) :
    src.qualifying after last = src.qualifying after mid ++ src.qualifying mid last := by
  rw [qualifying, logsIn_append lower upper, List.filterMap_append]
  rfl

theorem events_append (lower : after ≤ mid) (upper : mid ≤ last) :
    src.events after last = src.events after mid ++ src.events mid last := by
  rw [events, qualifying_append lower upper, List.filterMap_append]
  rfl

theorem logsIn_eq_nil (none_ : last ≤ after) : src.logsIn after last = [] := by
  rw [logsIn, List.filter_eq_nil_iff]
  intro log _ inside
  obtain ⟨lower, upper⟩ := within_iff.mp inside
  exact UInt64.not_lt.mpr (UInt64.le_trans upper none_) lower

theorem qualifying_eq_nil (none_ : last ≤ after) : src.qualifying after last = [] := by
  rw [qualifying, logsIn_eq_nil none_]
  rfl

theorem events_eq_nil (none_ : last ≤ after) : src.events after last = [] := by
  rw [events, qualifying_eq_nil none_]
  rfl

theorem events_mono (upper : mid ≤ last) : src.events after mid <+: src.events after last := by
  rcases UInt64.le_total after mid with lower | none_
  · rw [events_append lower upper]
    exact List.prefix_append _ _
  · rw [events_eq_nil none_]
    exact List.nil_prefix

theorem event?_iff :
    src.event? c = some e ↔ ∃ time,
      (src.ledger.secondsOf c.log.blockNumber).bind Instant.ofUnix? = some time ∧
        c.log.toEvent c.decoded time = e :=
  Option.map_eq_some_iff

theorem mem_events (member : e ∈ src.events after last) :
    ∃ c ∈ src.qualifying after last, src.event? c = some e :=
  List.mem_filterMap.mp member

theorem watched_of_mem_events (member : e ∈ src.events after last) :
    src.watched.contains ⟨e.wallet, src.plan.chainId⟩ = true := by
  obtain ⟨c, among, told⟩ := mem_events member
  obtain ⟨log, -, found⟩ := List.mem_filterMap.mp among
  obtain ⟨-, -, watched⟩ := candidate?_iff.mp found
  obtain ⟨time, -, rfl⟩ := event?_iff.mp told
  exact watched

/-- The events have the times of their blocks, which are whole seconds. -/
theorem onClock_of_mem_events (member : e ∈ src.events after last) : e.date.OnClock := by
  obtain ⟨c, -, told⟩ := mem_events member
  obtain ⟨time, known, rfl⟩ := event?_iff.mp told
  obtain ⟨seconds, -, instant⟩ := Option.bind_eq_some_iff.mp known
  exact Instant.onClock_of_ofUnix? instant

theorem map_filterMap_sublist {α β γ : Type} {f : α → Option β} {g : β → γ} {h : α → γ}
    (kept : ∀ a b, f a = some b → g b = h a) (as : List α) :
    ((as.filterMap f).map g).Sublist (as.map h) := by
  induction as with
  | nil => exact List.Sublist.refl _
  | cons a as ih =>
      cases found : f a with
      | none =>
          rw [List.filterMap_cons_none found]
          exact ih.cons _
      | some b =>
          rw [List.filterMap_cons_some found, List.map_cons, List.map_cons, kept a b found]
          exact ih.cons_cons _

theorem map_events_sublist {γ : Type} {g : VaultEvent → γ} {h : Log → γ}
    (kept : ∀ log decoded time, g (log.toEvent decoded time) = h log) :
    ((src.events after last).map g).Sublist ((Log.inOrder src.ledger.logs).map h) := by
  rw [events, qualifying, List.filterMap_filterMap]
  refine (map_filterMap_sublist ?_ _).trans
    ((List.filter_sublist.trans List.filter_sublist).map h)
  intro log e told
  obtain ⟨c, found, event⟩ := Option.bind_eq_some_iff.mp told
  obtain ⟨rfl, -, -⟩ := candidate?_iff.mp found
  obtain ⟨time, -, rfl⟩ := event?_iff.mp event
  exact kept c.log c.decoded time

theorem nodup_keys_events (src : Source) (after last : UInt64) :
    ((src.events after last).map VaultEvent.key).Nodup := by
  have distinct : ((Log.inOrder src.ledger.logs).map Log.key).Nodup :=
    ((List.mergeSort_perm _ _).map Log.key).nodup_iff.mpr (Log.nodup_keys src.keys)
  exact distinct.sublist (map_events_sublist fun _ _ _ => rfl)

theorem pairwise_events (src : Source) (after last : UInt64) :
    (src.events after last).Pairwise fun a b => a.position.before b.position = true := by
  have rising : ((Log.inOrder src.ledger.logs).map Log.position).Pairwise
      fun p q => p.before q = true :=
    List.pairwise_map.mpr (Log.pairwise_inOrder src.positions)
  exact List.pairwise_map.mp
    (rising.sublist (map_events_sublist (g := VaultEvent.position) fun _ _ _ => rfl))

end Source

end Scan

end VaultTransfers
