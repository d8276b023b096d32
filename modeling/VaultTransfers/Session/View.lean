import VaultTransfers.Json.Printer
import VaultTransfers.Session.World
import VaultTransfers.Text.Utf8

/-!
What is shown of a world: its parts by name, and of a step those that it
changed. An order is shown by its place in the table, for its identity is
arbitrary, and a message without the time of its publication.
-/

namespace VaultTransfers.Session

/-- An order's JSON with a label in place of its identity. -/
def withLabel (label : String) : Json → Json
  | .obj members =>
    .obj (members.map fun (name, v) => if name = "order_id" then (name, .str label) else (name, v))
  | j => j

/-- A text that ends with a time of publication, with that time left out. -/
def withoutPublication (text : List Char) : List Char :=
  match text.reverse with
  | '\x7d' :: '"' :: rest =>
    let before := rest.dropWhile (· ≠ '"')
    if "\"published_at\":\"".toList.reverse.isPrefixOf before then before.reverse ++ ['"', '\x7d']
    else text
  | _ => text

def deliveryJson (d : Delivery) : Json :=
  .arr [.ofNat d.offset, .str d.key,
    .str (String.ofList (withoutPublication (Text.lossy d.payload)))]

def rowJson (r : Outbox.Row) : Json :=
  .ofMembers (r.event.members
    ++ [("status", .str r.status.text), ("claimed", .bool r.claimedAt.isSome)])

def rowLabel (r : Outbox.Row) : String :=
  "outbox " ++ r.event.txHash ++ ":" ++ toString r.event.logIndex.toNat

namespace Questions

/-- The questions of each kind, where there are any: ranges as they came, the others in order. -/
def parts (q : Questions) : List (String × Json) :=
  let kinds : List (String × List Json) :=
    [("log_queries", q.ranges.map fun r => .arr [.ofUInt64 r.1, .ofUInt64 r.2]),
     ("receipts", (q.receipts.mergeSort (·.toNat ≤ ·.toNat)).map (.str ·.text)),
     ("blocks", (q.blocks.mergeSort (· ≤ ·)).map .ofUInt64)]
  (kinds.filter fun k => !k.2.isEmpty).map fun k => (k.1, .arr k.2)

end Questions

namespace World

def label (w : World) (id : OrderId) : String :=
  "order-" ++ toString (w.orders.orders.findIdx (·.id = id))

def orderJson (w : World) (o : Order) : Json :=
  withLabel (w.label o.id) o.toJson

/-- The parts that are shown when they change. -/
def parts (w : World) : List (String × Json) :=
  [("cursor", .ofUInt64 w.cursor.block), ("address_lookups", .ofNat w.lookups),
   ("committed", .ofNat w.bus.committed), ("rewinds", .ofNat w.rewinds)]
  ++ w.outbox.rows.map (fun r => (rowLabel r, rowJson r))
  ++ w.orders.orders.map fun o => (w.label o.id, w.orderJson o)

/-- The messages that a world has and an earlier one had not. -/
def newMessages (before? : Option World) (after : World) : List (String × Json) :=
  let seen := (before?.map (·.bus.log.length)).getD 0
  match after.bus.log.drop seen with
  | [] => []
  | ds => [("bus", .arr (ds.map deliveryJson))]

/-- What has changed between two worlds, and what the chain was asked in between. -/
def changes (before? : Option World) (after : World) : Json :=
  let known := (before?.map parts).getD []
  let changed := after.parts.filter fun p => (known.lookup p.1).map Json.compact ≠ some p.2.compact
  .ofMembers (changed ++ newMessages before? after ++ after.questions.parts)

end World

end VaultTransfers.Session
