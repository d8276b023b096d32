import VaultTransfers.Proofs.Orders.Mirror
import VaultTransfers.Proofs.Transfer.Stream

/-!
Orders told directly from events, without a bus between. What a wallet's orders
are does not depend on the identities that they are given, nor on the times at
which their messages were published.
-/

namespace VaultTransfers

/-- The order without its own identity. -/
def Order.anonymous (o : Order) : Order :=
  { o with id := ⟨0⟩ }

namespace Materialize

/-- The messages of events, all published at one time. -/
def arrivals (t : Instant) (es : List VaultEvent) : List Arrival :=
  es.zipIdx.map fun (e, i) => ⟨⟨i⟩, .ofEvent e t⟩

def direct (t : Instant) (es : List VaultEvent) : List (Except Fault Applied) × OrderTable :=
  applyAll (arrivals t es) .empty

theorem map_message_arrivals (t : Instant) (es : List VaultEvent) :
    (arrivals t es).map (·.message) = es.map fun e => Message.ofEvent e t := by
  have events : (es.zipIdx.map Prod.fst).map (fun e => Message.ofEvent e t) =
      (arrivals t es).map (·.message) := by
    rw [arrivals, List.map_map, List.map_map]
    rfl
  rw [← events, List.zipIdx_map_fst]

theorem nodup_fresh_arrivals (t : Instant) (es : List VaultEvent) :
    ((arrivals t es).map (·.fresh)).Nodup := by
  have places : (es.zipIdx.map Prod.snd).map OrderId.mk = (arrivals t es).map (·.fresh) := by
    rw [arrivals, List.map_map, List.map_map]
    rfl
  rw [← places, List.zipIdx_map_snd]
  have distinct : (List.range' 0 es.length).Nodup := List.nodup_range'
  exact distinct.map fun _ _ same => OrderId.mk.inj same

section

variable {as bs : List Arrival}

theorem lastOfRun_congr (same : as.map (·.message) = bs.map (·.message)) (last : Message) :
    lastOfRun last as = lastOfRun last bs := by
  induction as generalizing bs last with
  | nil =>
      obtain rfl : bs = [] := by simpa using same.symm
      rfl
  | cons a as ih =>
      obtain ⟨⟨id, m⟩, bs, rfl, head, tail⟩ := List.map_eq_cons_iff.mp same.symm
      obtain rfl : m = a.message := head
      simp only [lastOfRun, ih tail.symm]

theorem closing?_congr (same : as.map (·.message) = bs.map (·.message)) :
    closing? as = closing? bs := by
  induction as generalizing bs with
  | nil =>
      obtain rfl : bs = [] := by simpa using same.symm
      rfl
  | cons a as ih =>
      obtain ⟨⟨id, m⟩, bs, rfl, head, tail⟩ := List.map_eq_cons_iff.mp same.symm
      obtain rfl : m = a.message := head
      simp only [closing?, ih tail.symm]

/-- But for their identities, the rows go by the messages alone. -/
theorem map_anonymous_reconstruct (same : as.map (·.message) = bs.map (·.message)) (inRun : Bool) :
    (reconstruct inRun as).map Order.anonymous = (reconstruct inRun bs).map Order.anonymous := by
  induction as generalizing bs inRun with
  | nil =>
      obtain rfl : bs = [] := by simpa using same.symm
      rfl
  | cons a as ih =>
      obtain ⟨⟨id, m⟩, bs, rfl, head, tail⟩ := List.map_eq_cons_iff.mp same.symm
      obtain rfl : m = a.message := head
      have rows := fun inRun => ih tail.symm inRun
      cases kind : a.message.kind with
      | deposit =>
          simp only [reconstruct, kind, List.map_cons, rows]
          rfl
      | withdrawalRequested =>
          cases inRun with
          | true => simp only [reconstruct, kind, rows]
          | false =>
              simp only [reconstruct, kind, List.map_cons, rows]
              rw [lastOfRun_congr tail.symm, closing?_congr tail.symm]
              rfl
      | withdrawalCompleted =>
          cases inRun with
          | true => simp only [reconstruct, kind, rows]
          | false =>
              simp only [reconstruct, kind, List.map_cons, rows]
              rfl

theorem History.of_messages (history : History as) (same : bs.map (·.message) = as.map (·.message))
    (identities : (bs.map (·.fresh)).Nodup) : History bs where
  keys := by
    have keys : (as.map (·.message)).map Message.key = as.map (·.message.key) := List.map_map
    have keys' : (bs.map (·.message)).map Message.key = bs.map (·.message.key) := List.map_map
    rw [← keys', same, keys]
    exact history.keys
  identities := identities
  sound := by
    intro b member
    have among : b.message ∈ as.map (·.message) := same ▸ List.mem_map_of_mem member
    obtain ⟨a, a_mem, message⟩ := List.mem_map.mp among
    exact message ▸ history.sound a a_mem
  chain := by
    have chain : (as.map (·.message)).Pairwise fun m n =>
        m.wallet = n.wallet → m.position.before n.position = true :=
      List.pairwise_map.mpr history.chain
    rw [← same] at chain
    exact List.pairwise_map.mp chain

theorem History.ofWallet (history : History as) (w : String) : History (ofWallet w as) where
  keys := history.ofWallet_keys w
  identities := history.ofWallet_identities w
  sound := fun a member => history.sound a (mem_ofWallet.mp member).1
  chain := history.chain.sublist List.filter_sublist

theorem map_message_ofWallet {t : Instant} {es : List VaultEvent}
    (messages : as.map (·.message) = es.map fun e => Message.ofEvent e t) (w : String) :
    (ofWallet w as).map (·.message) = (eventsOf w es).map fun e => Message.ofEvent e t := by
  have filtered := congrArg (List.filter fun m : Message => m.wallet = w) messages
  rw [List.filter_map, List.filter_map] at filtered
  exact filtered

theorem direct_of_history (history : History as) {t : Instant}
    {es : List VaultEvent} {wallet : String}
    (messages : as.map (·.message) = es.map fun e => Message.ofEvent e t)
    (alike : ∀ e ∈ es, e.wallet = wallet) :
    ∃ answers : List Applied, (direct t es).1 = answers.map .ok ∧
      (direct t es).2.orders.map Order.anonymous =
        (reconstruct false as).map Order.anonymous := by
  have same : (arrivals t es).map (·.message) = as.map (·.message) :=
    (map_message_arrivals t es).trans messages.symm
  have history' : History ([] ++ arrivals t es) :=
    history.of_messages same (nodup_fresh_arrivals t es)
  obtain ⟨answers, after, applied, mirrors⟩ := mirrors_empty.applyAll_eq (arrivals t es) history'
  have rows : after.orders = reconstruct false (arrivals t es) := by
    refine mirrors.orders_eq (w := wallet) ?_
    intro a member
    have among : a.message ∈ es.map fun e => Message.ofEvent e t := by
      rw [← map_message_arrivals]
      exact List.mem_map_of_mem member
    obtain ⟨e, e_mem, message⟩ := List.mem_map.mp among
    rw [← message]
    exact alike e e_mem
  refine ⟨answers, ?_, ?_⟩
  · rw [direct, applied]
  · rw [direct, applied, rows]
    exact map_anonymous_reconstruct same false

end

theorem perm_flatMap_filter {α β : Type} [DecidableEq β] {f : α → β} {bs : List β}
    (distinct : bs.Nodup) {as : List α} (all : ∀ a ∈ as, f a ∈ bs) :
    as.Perm (bs.flatMap fun b => as.filter (f · = b)) := by
  induction bs generalizing as with
  | nil =>
      obtain rfl : as = [] := List.eq_nil_iff_forall_not_mem.mpr fun a member => by
        simpa using all a member
      exact .refl _
  | cons b bs ih =>
      obtain ⟨absent, distinct'⟩ := List.nodup_cons.mp distinct
      have others : ∀ a ∈ as.filter (fun a => !decide (f a = b)), f a ∈ bs := by
        intro a member
        obtain ⟨among, other⟩ := List.mem_filter.mp member
        rcases List.mem_cons.mp (all a among) with same | behind
        · simp [same] at other
        · exact behind
      have rest := ih distinct' others
      have same : (bs.flatMap fun c => (as.filter fun a => !decide (f a = b)).filter (f · = c)) =
          bs.flatMap fun c => as.filter (f · = c) := by
        refine List.flatMap_congr ?_
        intro c member
        rw [List.filter_filter]
        refine List.filter_congr ?_
        intro a _
        by_cases here : f a = c
        · have other : c ≠ b := fun there => absent (there ▸ member)
          simp [here, other]
        · simp [here]
      rw [same] at rest
      rw [List.flatMap_cons]
      exact (List.filter_append_perm (f · = b) as).symm.trans (rest.append_left _)

/-- But for their order, the rows of a table are those of the wallets one after the other. -/
theorem Mirrors.perm_flatMap {table : OrderTable} {as : List Arrival} (mirrors : Mirrors table as)
    {wallets : List String} (distinct : wallets.Nodup)
    (all : ∀ a ∈ as, a.message.wallet ∈ wallets) :
    table.orders.Perm (wallets.flatMap fun w => reconstruct false (ofWallet w as)) := by
  have rows : (wallets.flatMap fun w => reconstruct false (ofWallet w as)) =
      wallets.flatMap fun w => table.orders.filter (·.wallet = w) :=
    List.flatMap_congr fun w _ => (mirrors w).symm
  rw [rows]
  refine perm_flatMap_filter distinct ?_
  intro o member
  obtain ⟨a, among, -, wallet⟩ := mirrors.key_of_mem member
  exact wallet ▸ all a among

end Materialize

end VaultTransfers
