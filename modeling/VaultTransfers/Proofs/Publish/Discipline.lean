import Mathlib.Data.List.Nodup
import VaultTransfers.Pipeline.Publish
import VaultTransfers.Proofs.Codec.Message
import VaultTransfers.Proofs.Program.Pool
import VaultTransfers.Proofs.Store.Outbox

/-!
The outbox and the bus that publishers share. Any call on the outbox may fail
without effect, its clock may show anything, and the bus may refuse a message or
take it and still report a failure. A publisher has to mark no row as sent that
is not on the bus, and to send no row before the earlier rows of its wallet; as
long as all of them do so, the wallet's rows come to the bus in their order.
-/

namespace VaultTransfers

/-- The delivery is a message with the key. -/
def Delivery.Carries (d : Delivery) (k : EventKey) : Prop :=
  ∃ m, Message.ofBytes d.payload = .ok m ∧ m.key = k

namespace Bus

def Has (bus : Bus) (k : EventKey) : Prop :=
  ∃ d ∈ bus.log, d.Carries k

theorem Has.mono {bus later : Bus} {k : EventKey} (has : bus.Has k)
    (grown : bus.log <+: later.log) : later.Has k := by
  obtain ⟨d, member, carries⟩ := has
  exact ⟨d, grown.subset member, carries⟩

end Bus

namespace Publish

structure Desk where
  box : Outbox
  bus : Bus

namespace Desk

def empty : Desk := ⟨.empty, .empty⟩

def push (key : String) (payload : List UInt8) (w : Desk) : Desk :=
  { w with bus := w.bus.push key payload }

/-- All answers that a publisher may get. -/
def serves : Service Publish.interface Desk := fun c w reply after =>
  match c with
  | .outbox c =>
    (∃ now, reply = (Outbox.answer now c w.box).1 ∧ after = ⟨(Outbox.answer now c w.box).2, w.bus⟩) ∨
      ∃ fault, reply = .error fault ∧ after = w
  | .now => after = w
  | .send key payload =>
    reply = .ok () ∧ after = w.push key payload ∨
      ∃ fault, reply = .error fault ∧ (after = w ∨ after = w.push key payload)

/-- What is on the bus comes from rows, and each wallet's rows come in their order. -/
structure Sound (w : Desk) : Prop where
  ordered : w.box.Ordered
  timed : w.box.Timed
  sent : ∀ r ∈ w.box.rows, r.status = .sent → w.bus.Has r.event.key
  sources : ∀ d ∈ w.bus.log, ∃ a ∈ w.box.entries, d.key = a.event.wallet ∧
    ∃ t, d.payload = (Message.ofEvent a.event t).toBytes
  inOrder : ∀ a ∈ w.box.entries, ∀ b ∈ w.box.entries, a.event.wallet = b.event.wallet →
    a.foundBefore b = true → ∀ before d after, w.bus.log = before ++ d :: after →
      d.Carries b.event.key → ∃ d' ∈ before, d'.Carries a.event.key

/-- Entries and messages are only added. -/
def Moves (w v : Desk) : Prop :=
  w.box.entries <+: v.box.entries ∧ w.bus.log <+: v.bus.log

/-- All earlier rows of the wallet are on the bus. -/
def IsNext (w : Desk) (b : OutboxEvent) : Prop :=
  b.entry ∈ w.box.entries ∧ ∀ a ∈ w.box.entries, a.event.wallet = b.event.wallet →
    a.foundBefore b = true → w.bus.Has a.event.key

def Allowed : Publish.Call → Desk → Prop
  | .outbox (.record _), _ => False
  | .outbox (.markSent ref), w => w.bus.Has ref.key
  | .outbox _, _ => True
  | .now, _ => True
  | .send key payload, w => ∃ b, w.IsNext b ∧ key = b.event.wallet ∧
      ∃ t, payload = (Message.ofEvent b.event t).toBytes

theorem carries_iff {d : Delivery} {e : VaultEvent} {t : Instant} {k : EventKey}
    (payload : d.payload = (Message.ofEvent e t).toBytes) : d.Carries k ↔ e.key = k := by
  rw [Delivery.Carries, payload, Message.ofBytes_toBytes]
  constructor
  · rintro ⟨m, same, rfl⟩
    cases same
    rfl
  · intro same
    exact ⟨_, rfl, same⟩

section

variable {w v : Desk}

theorem Sound.eq_of_key (sound : w.Sound) {a b : OutboxEvent} (a_mem : a ∈ w.box.entries)
    (b_mem : b ∈ w.box.entries) (same : a.event.key = b.event.key) : a = b :=
  List.inj_on_of_nodup_map sound.ordered.keys a_mem b_mem same

theorem Sound.of_same (sound : w.Sound) (entries : v.box.entries = w.box.entries)
    (bus : v.bus = w.bus)
    (sent : ∀ r ∈ v.box.rows, r.status = .sent → w.bus.Has r.event.key) : v.Sound where
  ordered := sound.ordered.of_entries entries
  timed := sound.timed.of_entries entries
  sent := by
    rw [bus]
    exact sent
  sources := by
    rw [entries, bus]
    exact sound.sources
  inOrder := by
    rw [entries, bus]
    exact sound.inOrder

theorem Sound.push (sound : w.Sound) {b : OutboxEvent} (next : w.IsNext b) {payload : List UInt8}
    {t : Instant} (bytes : payload = (Message.ofEvent b.event t).toBytes) :
    (w.push b.event.wallet payload).Sound where
  ordered := sound.ordered
  timed := sound.timed
  sent := by
    intro r member sent
    exact (sound.sent r member sent).mono (List.prefix_append _ _)
  sources := by
    intro d member
    rcases List.mem_append.mp member with old | new
    · exact sound.sources d old
    · rw [List.mem_singleton.mp new]
      exact ⟨b.entry, next.1, rfl, t, bytes⟩
  inOrder := by
    intro a a_mem c c_mem wallet found before d after split carries
    have log : w.bus.log ++ [⟨w.bus.log.length, b.event.wallet, payload⟩] = before ++ d :: after :=
      split
    rcases List.eq_nil_or_concat after with rfl | ⟨others, last, rfl⟩
    · -- the new message itself
      obtain ⟨rfl, same⟩ := List.append_inj' log rfl
      obtain rfl := (List.cons.inj same).1
      rw [carries_iff bytes] at carries
      obtain rfl : b.entry = c := sound.eq_of_key next.1 c_mem carries
      exact next.2 a a_mem wallet found
    · rw [List.concat_eq_append, ← List.cons_append, ← List.append_assoc] at log
      obtain ⟨old, -⟩ := List.append_inj' log rfl
      exact sound.inOrder a a_mem c c_mem wallet found before d others old carries

theorem Moves.of_entries (entries : v.box.entries = w.box.entries) (bus : w.bus.log <+: v.bus.log) :
    w.Moves v :=
  ⟨entries ▸ List.prefix_rfl, bus⟩

theorem answered_outbox {c : Outbox.Call} {reply : Outbox.interface.Reply c} (sound : w.Sound)
    (allowed : Allowed (.outbox c) w) (served : serves (.outbox c) w reply v) :
    v.Sound ∧ w.Moves v := by
  rcases served with ⟨now, -, rfl⟩ | ⟨fault, -, rfl⟩
  · have other : ∀ e, c ≠ .record e := by
      rintro e rfl
      exact allowed
    have entries := Outbox.entries_answer other now w.box
    refine ⟨sound.of_same entries rfl ?_, Moves.of_entries entries List.prefix_rfl⟩
    intro r member sent
    rcases Outbox.sent_of_mem_answer other member sent with old | rfl
    · exact sound.sent r old sent
    · exact allowed
  · exact ⟨sound, List.prefix_rfl, List.prefix_rfl⟩

theorem answered {c : Publish.Call} {reply : Publish.Reply c} (sound : w.Sound)
    (allowed : Allowed c w) (served : serves c w reply v) : v.Sound ∧ w.Moves v := by
  cases c with
  | outbox c => exact answered_outbox sound allowed served
  | now =>
      obtain rfl : v = w := served
      exact ⟨sound, List.prefix_rfl, List.prefix_rfl⟩
  | send key payload =>
      obtain ⟨b, next, rfl, t, bytes⟩ := allowed
      have pushed : (w.push b.event.wallet payload).Sound ∧
          w.Moves (w.push b.event.wallet payload) :=
        ⟨sound.push next bytes, List.prefix_rfl, List.prefix_append _ _⟩
      rcases served with ⟨-, rfl⟩ | ⟨fault, -, rfl | rfl⟩
      · exact pushed
      · exact ⟨sound, List.prefix_rfl, List.prefix_rfl⟩
      · exact pushed

end

end Desk

def discipline : Discipline Publish.interface Desk where
  serve := Desk.serves
  good := Desk.Sound
  moves := Desk.Moves
  allowed := Desk.Allowed
  moves_refl _ := ⟨List.prefix_rfl, List.prefix_rfl⟩
  moves_trans _ _ _ first second := ⟨first.1.trans second.1, first.2.trans second.2⟩
  answered _ _ _ _ sound allowed served := Desk.answered sound allowed served

end Publish

end VaultTransfers
