import Mathlib.Data.List.Nodup
import Mathlib.Data.List.Perm.Subperm
import VaultTransfers.Bus
import VaultTransfers.Transfer.Message

/-!
Streams of events in which the last event of a wallet may come again before the
wallet's next one. What is heard of such a stream is each event once.
-/

namespace VaultTransfers

def eventsOf (wallet : String) (es : List VaultEvent) : List VaultEvent :=
  es.filter (·.wallet = wallet)

/-- The delivery is a message of the event, under the key of its wallet. -/
def Delivery.Tells (d : Delivery) (e : VaultEvent) : Prop :=
  d.key = e.wallet ∧ ∃ t, d.payload = (Message.ofEvent e t).toBytes

namespace Bus

/-- Each message has its place as its offset. -/
def Numbered (bus : Bus) : Prop :=
  bus.log.map (·.offset) = List.range bus.log.length

theorem Numbered.push {bus : Bus} (numbered : bus.Numbered) (key : String) (payload : List UInt8) :
    (bus.push key payload).Numbered := by
  have offsets : bus.log.map (·.offset) = List.range bus.log.length := numbered
  simp only [Numbered, Bus.push, List.map_append, List.length_append, offsets,
    List.length_singleton, List.range_succ, List.map_singleton]

theorem Numbered.offset_eq {bus : Bus} (numbered : bus.Numbered) {i : Nat} {d : Delivery}
    (here : bus.log[i]? = some d) : d.offset = i := by
  obtain ⟨inside, same⟩ := List.getElem?_eq_some_iff.mp here
  have offsets : bus.log.map (·.offset) = List.range bus.log.length := numbered
  have both := congrArg (·[i]?) offsets
  rw [← same]
  simpa [inside] using both

end Bus

/-- One more event; the last one of its wallet again is nothing new. -/
def hear (es : List VaultEvent) (e : VaultEvent) : List VaultEvent :=
  if (eventsOf e.wallet es).getLast? = some e then es else es ++ [e]

def heard (told : List VaultEvent) : List VaultEvent :=
  told.foldl hear []

section

variable {wallet : String} {es : List VaultEvent} {e : VaultEvent}

theorem mem_eventsOf : e ∈ eventsOf wallet es ↔ e ∈ es ∧ e.wallet = wallet := by
  simp [eventsOf]

theorem eventsOf_append (wallet : String) (es more : List VaultEvent) :
    eventsOf wallet (es ++ more) = eventsOf wallet es ++ eventsOf wallet more :=
  List.filter_append ..

theorem eventsOf_concat (es : List VaultEvent) (e : VaultEvent) :
    eventsOf e.wallet (es ++ [e]) = eventsOf e.wallet es ++ [e] := by
  simp [eventsOf]

theorem eventsOf_concat_of_ne (other : e.wallet ≠ wallet) :
    eventsOf wallet (es ++ [e]) = eventsOf wallet es := by
  simp [eventsOf, other]

theorem eventsOf_mono {more : List VaultEvent} (grown : es <+: more) (wallet : String) :
    eventsOf wallet es <+: eventsOf wallet more :=
  grown.filter _

theorem split_of_last (last : (eventsOf wallet es).getLast? = some e) :
    ∃ before later, es = before ++ e :: later ∧ eventsOf wallet later = [] := by
  obtain ⟨others, split⟩ := List.getLast?_eq_some_iff.mp last
  obtain ⟨before, rest, rfl, -, tail⟩ := List.filter_eq_append_iff.mp split
  obtain ⟨skipped, later, rfl, outside, -, none_⟩ := List.filter_eq_cons_iff.mp tail
  exact ⟨before ++ skipped, later, (List.append_assoc ..).symm, none_⟩

theorem prefix_hear (es : List VaultEvent) (e : VaultEvent) : es <+: hear es e := by
  unfold hear
  split
  · exact List.prefix_rfl
  · exact List.prefix_append _ _

theorem heard_concat (told : List VaultEvent) (e : VaultEvent) :
    heard (told ++ [e]) = hear (heard told) e := by
  rw [heard, List.foldl_append]
  rfl

theorem prefix_foldl_hear (more es : List VaultEvent) : es <+: more.foldl hear es := by
  induction more generalizing es with
  | nil => exact List.prefix_rfl
  | cons e more ih => exact (prefix_hear es e).trans (ih (hear es e))

theorem heard_append (told more : List VaultEvent) : heard told <+: heard (told ++ more) := by
  rw [heard, heard, List.foldl_append]
  exact prefix_foldl_hear more _

theorem mem_hear (es : List VaultEvent) (e : VaultEvent) : e ∈ hear es e := by
  unfold hear
  split
  · rename_i last
    exact (mem_eventsOf.mp (List.mem_of_getLast? last)).1
  · simp

theorem mem_heard {told : List VaultEvent} (member : e ∈ told) : e ∈ heard told := by
  obtain ⟨before, after, rfl⟩ := List.append_of_mem member
  have grown : heard (before ++ [e]) <+: heard (before ++ [e] ++ after) := heard_append _ after
  rw [heard_concat, List.append_assoc, List.singleton_append] at grown
  exact grown.subset (mem_hear _ e)

end

/-- Of each wallet the events are the first ones that there are. -/
def Follows (all es : List VaultEvent) : Prop :=
  ∀ wallet, eventsOf wallet es <+: eventsOf wallet all

namespace Follows

variable {all es : List VaultEvent}

theorem mono {more : List VaultEvent} (follows : Follows all more) (grown : es <+: more) :
    Follows all es :=
  fun wallet => (eventsOf_mono grown wallet).trans (follows wallet)

theorem extend {more : List VaultEvent} (follows : Follows all es) (grown : all <+: more) :
    Follows more es :=
  fun wallet => (follows wallet).trans (eventsOf_mono grown wallet)

theorem mem (follows : Follows all es) {e : VaultEvent} (member : e ∈ es) : e ∈ all :=
  (mem_eventsOf.mp ((follows e.wallet).subset (mem_eventsOf.mpr ⟨member, rfl⟩))).1

theorem sublist_of_pair (follows : Follows all es) {a b : VaultEvent} (pair : [a, b].Sublist es)
    (same : a.wallet = b.wallet) : [a, b].Sublist all := by
  have filtered := pair.filter (·.wallet = b.wallet)
  simp only [List.filter_cons, same, decide_true, if_true, List.filter_nil] at filtered
  exact filtered.trans ((follows b.wallet).sublist.trans List.filter_sublist)

theorem eventsOf_eq (follows : Follows all es) (distinct : all.Nodup) (every : ∀ e ∈ all, e ∈ es)
    (wallet : String) : eventsOf wallet es = eventsOf wallet all := by
  refine (follows wallet).eq_of_length_le ?_
  have mine : (eventsOf wallet all).Nodup := distinct.sublist List.filter_sublist
  refine (List.subperm_of_subset mine ?_).length_le
  intro e member
  obtain ⟨among, same⟩ := mem_eventsOf.mp member
  exact mem_eventsOf.mpr ⟨every e among, same⟩

theorem nodup_keys (follows : Follows all es) (keys : (all.map VaultEvent.key).Nodup) :
    (es.map VaultEvent.key).Nodup := by
  have distinct : es.Nodup := by
    rw [List.nodup_iff_sublist]
    intro e twice
    exact List.nodup_iff_sublist.mp (keys.of_map _) e (follows.sublist_of_pair twice rfl)
  refine distinct.map_on ?_
  intro a a_mem b b_mem same
  exact List.inj_on_of_nodup_map keys (follows.mem a_mem) (follows.mem b_mem) same

theorem pairwise (follows : Follows all es)
    (rising : all.Pairwise fun a b => a.position.before b.position = true) :
    es.Pairwise fun a b => a.wallet = b.wallet → a.position.before b.position = true := by
  rw [List.pairwise_iff_forall_sublist]
  intro a b pair same
  exact List.pairwise_iff_forall_sublist.mp rising (follows.sublist_of_pair pair same)

end Follows

end VaultTransfers
