import VaultTransfers.Proofs.Codec.Microseconds
import VaultTransfers.Proofs.Codec.Payload
import VaultTransfers.Sql.Orders
import VaultTransfers.Sql.Outbox

/-!
What the statements that write records say. A statement is read as a server reads
it: by its text, which pairs columns with parameters. A row that holds these
columns is read back as the record that was written, but for its date, which the
database keeps in microseconds from 2000-01-01.
-/

namespace VaultTransfers

namespace Sql

namespace Statement

/-- The text behind the first place of the mark. -/
def behind (mark : List Char) : List Char → List Char
  | [] => []
  | c :: cs =>
    if mark.isPrefixOf (c :: cs) then (c :: cs).drop mark.length else behind mark cs

/-- The text before the first place of the mark. -/
def before (mark : List Char) : List Char → List Char
  | [] => []
  | c :: cs => if mark.isPrefixOf (c :: cs) then [] else c :: before mark cs

/-- The items of a list with commas between them. -/
def items (text : List Char) : List (List Char) :=
  (text.splitOn ',').map (·.dropWhile (· = ' '))

def source? : List Char → Option Source
  | '$' :: text =>
    let number := (text.takeWhile Char.isDigit).foldl (fun n c => 10 * n + (c.toNat - 48)) 0
    let type := text.dropWhile Char.isDigit
    if type = [] then some (.param number)
    else if type = "::NUMERIC".toList then some (.numeric number)
    else none
  | '\x27' :: text => some (.literal (String.ofList (before ['\x27'] text)))
  | _ => none

def column? (name source : List Char) : Option Column :=
  (source? source).map (⟨String.ofList name, ·⟩)

/-- A column and what it is set or compared to. -/
def equation? (text : List Char) : Option Column :=
  column? (before " = ".toList text) (behind " = ".toList text)

/-- The columns that a statement of one row names, and what it pairs them with. -/
def columns? (text : List Char) : Option (List Column) :=
  if "INSERT INTO ".toList.isPrefixOf text then
    let names := items (before [')'] (behind ['('] text))
    let sources := items (before [')'] (behind "VALUES (".toList text))
    if names.length = sources.length then
      (names.zip sources).mapM fun (name, source) => column? name source
    else none
  else
    let set := items (before " WHERE ".toList (behind " SET ".toList text))
    (set ++ [behind " WHERE ".toList text]).mapM equation?

/-- The columns that an insertion renews if its row is there already, and what each is set to. -/
def renewals (text : List Char) : List (List Char × List Char) :=
  match behind " DO UPDATE SET ".toList text with
  | [] => []
  | set => (items set).map fun item => (before " = ".toList item, behind " = ".toList item)

/-- The column is one of those that are to be inserted, and takes over what is to be inserted in it. -/
def TakesOver (columns : List Column) (renewal : List Char × List Char) : Prop :=
  renewal.1 ∈ columns.map (·.name.toList) ∧ renewal.2 = "EXCLUDED.".toList ++ renewal.1

instance (columns : List Column) (renewal : List Char × List Char) :
    Decidable (TakesOver columns renewal) :=
  inferInstanceAs (Decidable (_ ∧ _))

end Statement

/-! The texts of statements as characters. A long text is taken to pieces before it is computed. -/

theorem toList_foldl_append (texts : List String) (text : String) :
    (texts.foldl (· ++ ·) text).toList =
      texts.foldl (fun cs next => cs ++ next.toList) text.toList := by
  induction texts generalizing text with
  | nil => rfl
  | cons next texts ih => rw [List.foldl_cons, ih, String.toList_append, List.foldl_cons]

theorem toList_names (columns : List Column) :
    (Column.names columns).toList =
      ", ".toList.intercalate (columns.map fun c => c.name.toList) := by
  rw [Column.names, String.toList_intercalate, List.map_map]
  rfl

theorem toList_sources (columns : List Column) :
    (Column.sources columns).toList =
      ", ".toList.intercalate (columns.map fun c => c.source.sql.toList) := by
  rw [Column.sources, String.toList_intercalate, List.map_map]
  rfl

theorem toList_assignments (columns : List Column) :
    (Column.assignments columns).toList =
      ", ".toList.intercalate (columns.map fun c =>
        c.name.toList ++ " = ".toList ++ c.source.sql.toList) := by
  rw [Column.assignments, String.toList_intercalate, List.map_map]
  refine congrArg _ (List.map_congr_left fun c _ => ?_)
  exact toList_foldl_append [" = ", c.source.sql] c.name

theorem toList_takeovers (names : List String) :
    (Column.takeovers names).toList =
      ", ".toList.intercalate (names.map fun name =>
        name.toList ++ " = EXCLUDED.".toList ++ name.toList) := by
  rw [Column.takeovers, String.toList_intercalate, List.map_map]
  refine congrArg _ (List.map_congr_left fun name _ => ?_)
  exact toList_foldl_append [" = EXCLUDED.", name] name

theorem toList_insertOrRenew (table : String) (columns : List Column) (key renewed : List String) :
    (insertOrRenew table columns key renewed).toList =
      "INSERT INTO ".toList ++ table.toList ++ " (".toList ++ (Column.names columns).toList ++
        ") VALUES (".toList ++ (Column.sources columns).toList ++ ") ON CONFLICT (".toList ++
          (", ".intercalate key).toList ++ ") DO UPDATE SET ".toList ++
            (Column.takeovers renewed).toList :=
  toList_foldl_append [table, " (", Column.names columns, ") VALUES (", Column.sources columns,
    ") ON CONFLICT (", ", ".intercalate key, ") DO UPDATE SET ", Column.takeovers renewed]
    "INSERT INTO "

/-- The number of the parameter that goes into the column. -/
def Source.number? : Source → Option Nat
  | .param number | .numeric number => some number
  | .literal _ => none

/-- The text pairs these columns with parameters, up to that number, each with one. What it renews of
a row that is there already is paired in the same way. -/
structure Statement.Pairs (text : String) (count : Nat) (columns : List Column) : Prop where
  read : Statement.columns? text.toList = some columns
  names : (columns.map Column.name).Nodup
  numbers : (columns.filterMap (·.source.number?)).Perm (List.range' 1 count)
  renewals : ∀ renewal ∈ Statement.renewals text.toList, TakesOver columns renewal

/-- One statement, that ends with what comes back. -/
def sending (s : Statement) : Program interface (Except StoreFault Unit) :=
  .call (.execute s) fun
    | .ok _ => .done (.ok ())
    | .error fault => .done (.error (.database fault))

/-- A record is written by one statement, or not at all if one of its counts is too large for its
column. -/
inductive Writes (write : Task Unit) (counts : List UInt64) (kept : Row → Prop) : Prop
  | refused {v : UInt64} (member : v ∈ counts) (large : twoTo 63 ≤ v.toNat)
      (refuses : write.run = .done (.error (.outOfRange v))) : Writes write counts kept
  | sent {s : Statement} {columns : List Column} (fits : ∀ v ∈ counts, v.toNat < twoTo 63)
      (sends : write.run = sending s) (pairs : Statement.Pairs s.text s.params.length columns)
      (keeps : kept (Column.written columns s.params)) : Writes write counts kept

/-- The row has these columns, with what is in them. -/
def Row.Holds (row columns : Row) : Prop :=
  ∀ column ∈ columns, row.lookup column.1 = some column.2

theorem Row.required_of_lookup {α : Type} {row : Row} {name : String} {read : Value → Option α}
    {v : Value} {a : α} (found : row.lookup name = some v) (set : v ≠ .null)
    (reads : read v = some a) : row.required name read = .ok a := by
  have looked : row.value name = .ok v := by rw [Row.value, found]
  rw [Row.required, Row.optional, looked]
  cases v with
  | null => exact absurd rfl set
  | text | integer | timestamp | json | identity | seconds =>
      simp only [bind, Except.bind, reads]

theorem Row.optional_of_lookup {α : Type} {row : Row} {name : String} {read : Value → Option α}
    {f : α → Value} {x : Option α} (found : row.lookup name = some (.ofOption f x))
    (set : ∀ a, f a ≠ .null) (reads : ∀ a, read (f a) = some a) :
    row.optional name read = .ok x := by
  have looked : row.value name = .ok (.ofOption f x) := by rw [Row.value, found]
  rw [Row.optional, looked]
  cases x with
  | none => rfl
  | some a =>
      have here := reads a
      have there := set a
      simp only [bind, Except.bind, Value.ofOption]
      generalize f a = v at here there ⊢
      cases v with
      | null => exact absurd rfl there
      | text | integer | timestamp | json | identity | seconds => simp only [here]

theorem nonnegative_toNat (n : UInt64) : nonnegative n.toNat = .ok n := by
  rw [nonnegative, if_pos (Int.natCast_nonneg _), Int.toNat_natCast, UInt64.ofNat_toNat]

theorem bigint_cases (n : UInt64) :
    n.toNat < twoTo 63 ∧ bigint n = .ok (.integer n.toNat) ∨
      twoTo 63 ≤ n.toNat ∧ bigint n = .error (.outOfRange n) := by
  by_cases fits : n.toNat < twoTo 63
  · exact .inl ⟨fits, if_pos fits⟩
  · exact .inr ⟨Nat.le_of_not_lt fits, if_neg fits⟩

/-- The program that writes with the parameters of a record. -/
def writing (text : String) (params : Except StoreFault (List Value)) : Task Unit := do
  let params ← params
  let _ ← execute text params

theorem run_writing_ok (text : String) (values : List Value) :
    (writing text (.ok values)).run = sending ⟨text, values⟩ := by
  refine congrArg (Program.call (I := interface) (Call.execute ⟨text, values⟩))
    (funext fun reply => ?_)
  rcases reply with fault | n
  · rfl
  · rfl

theorem writes_of_params {text : String} {params : Except StoreFault (List Value)}
    {values : List Value} {counts : List UInt64} {columns : List Column} {kept : Row → Prop}
    (outcome : (∀ v ∈ counts, v.toNat < twoTo 63) ∧ params = .ok values ∨
      ∃ v ∈ counts, twoTo 63 ≤ v.toNat ∧ params = .error (.outOfRange v))
    (pairs : Statement.Pairs text values.length columns)
    (keeps : kept (Column.written columns values)) :
    Writes (writing text params) counts kept := by
  obtain ⟨fits, rfl⟩ | ⟨v, member, large, rfl⟩ := outcome
  · exact .sent fits (run_writing_ok text values) pairs keeps
  · exact .refused member large rfl

namespace Orders

def counts (o : Order) : List UInt64 :=
  o.blockNumber :: o.logIndex :: o.completionLogIndex.toList

/-- What the parameters are if the counts fit. -/
def values (o : Order) : List Value :=
  [.identity o.id, .text o.txHash, .integer o.logIndex.toNat, .integer o.blockNumber.toNat,
    .ofInstant o.date, .text o.direction.text, .text o.status.text, .text o.wallet, .text o.amount,
    .text o.fromAsset, .text o.toAsset, .ofOption .text o.estimate,
    .ofOption .text o.completionTxHash,
    .ofOption .integer (o.completionLogIndex.map fun n => (n.toNat : Int))]

theorem params_cases (o : Order) :
    (∀ v ∈ counts o, v.toNat < twoTo 63) ∧ params o = .ok (values o) ∨
      ∃ v ∈ counts o, twoTo 63 ≤ v.toNat ∧ params o = .error (.outOfRange v) := by
  have completion : (∀ n ∈ o.completionLogIndex.toList, n.toNat < twoTo 63) ∧
        optionalBigint o.completionLogIndex =
          .ok (.ofOption .integer (o.completionLogIndex.map fun n => (n.toNat : Int))) ∨
      ∃ n ∈ o.completionLogIndex.toList, twoTo 63 ≤ n.toNat ∧
        optionalBigint o.completionLogIndex = .error (.outOfRange n) := by
    cases o.completionLogIndex with
    | none => exact .inl ⟨by simp, rfl⟩
    | some n =>
        obtain ⟨fits, here⟩ | ⟨large, here⟩ := bigint_cases n
        · exact .inl ⟨by simpa using fits, here⟩
        · exact .inr ⟨n, by simp, large, here⟩
  simp only [counts, List.forall_mem_cons]
  obtain ⟨fits, third⟩ | ⟨n, member, large, third⟩ := completion
  · obtain ⟨fits', second⟩ | ⟨large, second⟩ := bigint_cases o.logIndex
    · obtain ⟨fits'', first⟩ | ⟨large, first⟩ := bigint_cases o.blockNumber
      · refine .inl ⟨⟨fits'', fits', fits⟩, ?_⟩
        rw [params, third, second, first]
        rfl
      · refine .inr ⟨_, List.mem_cons_self, large, ?_⟩
        rw [params, third, second, first]
        rfl
    · refine .inr ⟨_, List.mem_cons_of_mem _ List.mem_cons_self, large, ?_⟩
      rw [params, third, second]
      rfl
  · refine .inr ⟨n, List.mem_cons_of_mem _ (List.mem_cons_of_mem _ member), large, ?_⟩
    rw [params, third]
    rfl

/-- A row that holds an order is read back as the order, but for its date. -/
theorem read_of_holds {o : Order} {row : Row} {u : Instant}
    (holds : row.Holds (Column.written columns (values o))) (cut : o.date.Cut u) :
    ∃ record, Record.ofRow row = .ok record ∧ record.toOrder = .ok { o with date := u } := by
  simp only [Row.Holds, Column.written, columns, List.map_cons, List.map_nil, List.forall_mem_cons]
    at holds
  obtain ⟨id, txHash, logIndex, blockNumber, date, direction, status, wallet, amount, fromAsset,
    toAsset, estimate, completionTxHash, completionLogIndex, -⟩ := holds
  -- One fact for each column, in the order in which a row is looked at.
  have id : row.required "order_id" Value.asIdentity = .ok o.id :=
    Row.required_of_lookup id nofun rfl
  have txHash : row.required "tx_hash" Value.asText = .ok o.txHash :=
    Row.required_of_lookup txHash nofun rfl
  have logIndex : row.required "log_index" Value.asInteger = .ok (o.logIndex.toNat : Int) :=
    Row.required_of_lookup logIndex nofun rfl
  have blockNumber : row.required "block_number" Value.asInteger =
      .ok (o.blockNumber.toNat : Int) :=
    Row.required_of_lookup blockNumber nofun rfl
  have date : row.required "tx_date" Value.asInstant = .ok u :=
    Row.required_of_lookup date nofun (Instant.ofMicros_of_cut cut)
  have direction : row.required "transfer_type" Value.asText = .ok o.direction.text :=
    Row.required_of_lookup direction nofun rfl
  have status : row.required "status" Value.asText = .ok o.status.text :=
    Row.required_of_lookup status nofun rfl
  have wallet : row.required "wallet_address" Value.asText = .ok o.wallet :=
    Row.required_of_lookup wallet nofun rfl
  have amount : row.required "amount" Value.asText = .ok o.amount :=
    Row.required_of_lookup amount nofun rfl
  have fromAsset : row.required "from_asset" Value.asText = .ok o.fromAsset :=
    Row.required_of_lookup fromAsset nofun rfl
  have toAsset : row.required "to_asset" Value.asText = .ok o.toAsset :=
    Row.required_of_lookup toAsset nofun rfl
  have estimate : row.optional "estimated_amount" Value.asText = .ok o.estimate :=
    Row.optional_of_lookup estimate nofun fun _ => rfl
  have completionTxHash : row.optional "completion_tx_hash" Value.asText = .ok o.completionTxHash :=
    Row.optional_of_lookup completionTxHash nofun fun _ => rfl
  have completionLogIndex : row.optional "completion_log_index" Value.asInteger =
      .ok (o.completionLogIndex.map fun n => (n.toNat : Int)) :=
    Row.optional_of_lookup completionLogIndex nofun fun _ => rfl
  have back : (o.completionLogIndex.map fun n => (n.toNat : Int)).mapM nonnegative =
      .ok o.completionLogIndex := by
    cases o.completionLogIndex with
    | none => rfl
    | some n => exact congrArg (Except.map some) (nonnegative_toNat n)
  refine ⟨⟨o.id, o.txHash, o.logIndex.toNat, o.blockNumber.toNat, u, o.direction.text,
    o.status.text, o.wallet, o.amount, o.fromAsset, o.toAsset, o.estimate, o.completionTxHash,
    o.completionLogIndex.map fun n => (n.toNat : Int)⟩, ?_, ?_⟩
  · rw [Record.ofRow, id, txHash, logIndex, blockNumber, date, direction, status, wallet, amount,
      fromAsset, toAsset, estimate, completionTxHash, completionLogIndex]
    rfl
  · rw [Record.toOrder, nonnegative_toNat, nonnegative_toNat, Direction.ofText_text,
      OrderStatus.ofText_text, back]
    rfl

theorem pairs_upsert :
    Statement.Pairs (insertOrRenew "orders" columns ["tx_hash", "log_index"] renewed) 14
      columns where
  read := by
    rw [toList_insertOrRenew, toList_names, toList_sources]
    decide +kernel
  names := by decide
  numbers := by decide
  renewals := by
    rw [toList_insertOrRenew, toList_names, toList_sources, toList_takeovers]
    decide +kernel

theorem toList_updateText :
    updateText.toList =
      "UPDATE orders SET ".toList ++ (Column.assignments (columns.drop 1)).toList ++
        " WHERE order_id = $1".toList :=
  toList_foldl_append [Column.assignments (columns.drop 1), " WHERE order_id = $1"]
    "UPDATE orders SET "

theorem pairs_update :
    Statement.Pairs updateText 14 (columns.drop 1 ++ [⟨"order_id", .param 1⟩]) where
  read := by
    rw [toList_updateText, toList_assignments]
    decide +kernel
  names := by decide
  numbers := by decide
  renewals := by
    rw [toList_updateText, toList_assignments]
    decide +kernel

end Orders

namespace Outbox

def counts (e : VaultEvent) : List UInt64 :=
  [e.blockNumber, e.logIndex]

/-- What the parameters are if the counts fit. -/
def values (e : VaultEvent) : List Value :=
  [.text e.txHash, .integer e.logIndex.toNat, .text e.kind.text, .integer e.blockNumber.toNat,
    .ofInstant e.date, .text e.wallet, .json e.payload.toJson, .text e.amount, .text e.fromAsset,
    .text e.toAsset]

theorem params_cases (e : VaultEvent) :
    (∀ v ∈ counts e, v.toNat < twoTo 63) ∧ params e = .ok (values e) ∨
      ∃ v ∈ counts e, twoTo 63 ≤ v.toNat ∧ params e = .error (.outOfRange v) := by
  simp only [counts, List.forall_mem_cons]
  obtain ⟨fits, second⟩ | ⟨large, second⟩ := bigint_cases e.logIndex
  · obtain ⟨fits', first⟩ | ⟨large, first⟩ := bigint_cases e.blockNumber
    · refine .inl ⟨⟨fits', fits, by simp⟩, ?_⟩
      rw [params, second, first]
      rfl
    · refine .inr ⟨_, List.mem_cons_self, large, ?_⟩
      rw [params, second, first]
      rfl
  · refine .inr ⟨_, List.mem_cons_of_mem _ List.mem_cons_self, large, ?_⟩
    rw [params, second]
    rfl

/-- A row that holds an event, with any delivery, is read back as the event, but for its date. -/
theorem read_of_holds {e : VaultEvent} {row : Row} {status : OutboxStatus} {created : Value}
    {createdAt u : Instant}
    (holds : row.Holds ((Column.written columns (values e)).filter (·.1 ≠ "status")))
    (status_eq : row.lookup "status" = some (.text status.text))
    (created_eq : row.lookup "created_at" = some created)
    (time : created.asInstant = some createdAt) (cut : e.date.Cut u) :
    ∃ record, Record.ofRow row = .ok record ∧
      record.toEvent = .ok ⟨{ e with date := u }, status, createdAt⟩ := by
  simp only [Row.Holds, List.forall_mem_filter, Column.written, columns, List.map_cons,
    List.map_nil, List.forall_mem_cons] at holds
  obtain ⟨txHash, logIndex, kind, -, blockNumber, date, wallet, payload, amount, fromAsset, toAsset,
    -⟩ := holds
  have txHash : row.required "tx_hash" Value.asText = .ok e.txHash :=
    Row.required_of_lookup (txHash rfl) nofun rfl
  have logIndex : row.required "log_index" Value.asInteger = .ok (e.logIndex.toNat : Int) :=
    Row.required_of_lookup (logIndex rfl) nofun rfl
  have kind : row.required "event_type" Value.asText = .ok e.kind.text :=
    Row.required_of_lookup (kind rfl) nofun rfl
  have status' : row.required "status" Value.asText = .ok status.text :=
    Row.required_of_lookup status_eq nofun rfl
  have blockNumber : row.required "block_number" Value.asInteger =
      .ok (e.blockNumber.toNat : Int) :=
    Row.required_of_lookup (blockNumber rfl) nofun rfl
  have date : row.required "tx_date" Value.asInstant = .ok u :=
    Row.required_of_lookup (date rfl) nofun (Instant.ofMicros_of_cut cut)
  have wallet : row.required "wallet_address" Value.asText = .ok e.wallet :=
    Row.required_of_lookup (wallet rfl) nofun rfl
  have payload : row.required "event_data" Value.asJson = .ok e.payload.toJson :=
    Row.required_of_lookup (payload rfl) nofun rfl
  have amount : row.required "amount" Value.asText = .ok e.amount :=
    Row.required_of_lookup (amount rfl) nofun rfl
  have fromAsset : row.required "from_asset" Value.asText = .ok e.fromAsset :=
    Row.required_of_lookup (fromAsset rfl) nofun rfl
  have toAsset : row.required "to_asset" Value.asText = .ok e.toAsset :=
    Row.required_of_lookup (toAsset rfl) nofun rfl
  have set : created ≠ .null := by
    rintro rfl
    cases time
  have createdAt' : row.required "created_at" Value.asInstant = .ok createdAt :=
    Row.required_of_lookup created_eq set time
  refine ⟨⟨e.txHash, e.logIndex.toNat, e.kind.text, status.text, e.blockNumber.toNat, u, e.wallet,
    e.payload.toJson, e.amount, e.fromAsset, e.toAsset, createdAt⟩, ?_, ?_⟩
  · rw [Record.ofRow, txHash, logIndex, kind, status', blockNumber, date, wallet, payload, amount,
      fromAsset, toAsset, createdAt']
    rfl
  · have payload : Record.payload e.kind e.payload.toJson = .ok e.payload := by
      rw [Record.payload, VaultEvent.kind, Payload.ofJson_toJson]
    rw [Record.toEvent, nonnegative_toNat, nonnegative_toNat, EventKind.ofText_text,
      OutboxStatus.ofText_text]
    simp only [known, bind, Except.bind, payload]
    rfl

theorem pairs_record :
    Statement.Pairs (insertOrRenew "event_outbox" columns ["tx_hash", "log_index"] renewed) 10
      columns where
  read := by
    rw [toList_insertOrRenew, toList_names, toList_sources]
    decide +kernel
  names := by decide
  numbers := by decide
  renewals := by
    rw [toList_insertOrRenew, toList_names, toList_sources, toList_takeovers]
    decide +kernel

end Outbox

/-- Whoever writes a record sends one statement, that pairs each column with a parameter of its own,
and nothing if one of its counts is too large. A row that holds what is written is read back as the
same record, with its date cut. -/
theorem writes_read_back :
    (∀ o : Order, ∀ write ∈ [Orders.upsert o, Orders.update o],
      Writes write (Orders.counts o) fun written =>
        ∀ row : Row, row.Holds written → ∀ u, o.date.Cut u →
          ∃ record, Orders.Record.ofRow row = .ok record ∧
            record.toOrder = .ok { o with date := u }) ∧
    (∀ e : VaultEvent, Writes (Outbox.record e) (Outbox.counts e) fun written =>
      ∀ row : Row, row.Holds (written.filter (·.1 ≠ "status")) →
        ∀ (status : OutboxStatus) (created : Value) (createdAt : Instant),
          row.lookup "status" = some (.text status.text) → row.lookup "created_at" = some created →
            created.asInstant = some createdAt → ∀ u, e.date.Cut u →
              ∃ record, Outbox.Record.ofRow row = .ok record ∧
                record.toEvent = .ok ⟨{ e with date := u }, status, createdAt⟩) ∧
    ∀ t : Instant, ((∃ u, t.Cut u) ↔ (t.second = 8210266876799 → t.isLeap = false)) ∧
      ∀ u, t.Cut u → t.isLeap = false → Instant.millennium ≤ t.second ∨ t.nanos % 1000 = 0 →
        u = t.truncated := by
  refine ⟨?_, ?_, ?_⟩
  · intro o write member
    rcases List.mem_cons.mp member with rfl | member
    · refine writes_of_params (Orders.params_cases o) Orders.pairs_upsert ?_
      exact fun row holds u cut => Orders.read_of_holds holds cut
    · -- The key comes last in this statement; a row holds the same columns in any order.
      obtain rfl := List.mem_singleton.mp member
      refine writes_of_params (Orders.params_cases o) Orders.pairs_update ?_
      intro row holds u cut
      refine Orders.read_of_holds ?_ cut
      intro column member
      refine holds column ?_
      have turned : (Column.written (Orders.columns.drop 1 ++ [⟨"order_id", .param 1⟩])
          (Orders.values o)).Perm (Column.written Orders.columns (Orders.values o)) :=
        (List.perm_append_singleton _ _).map _
      exact turned.mem_iff.mpr member
  · intro e
    refine writes_of_params (Outbox.params_cases e) Outbox.pairs_record ?_
    exact fun row holds status created createdAt status_eq created_eq time u cut =>
      Outbox.read_of_holds holds status_eq created_eq time cut
  · exact fun t => ⟨Instant.exists_cut_iff, fun u cut unleaped plain =>
      Instant.eq_of_cut unleaped plain cut⟩

/-- An open withdrawal of the leap second at the end of 2016. -/
def leapOrder : Order where
  id := ⟨1⟩
  txHash := "0x0000000000000000000000000000000000000000000000000000000000000001"
  logIndex := 0
  blockNumber := 1
  date := ⟨1483228799, 1000000000, by decide, by decide, by decide⟩
  direction := .withdrawal
  status := .inProgress
  wallet := "0x1111111111111111111111111111111111111111"
  amount := "5"
  fromAsset := "share"
  toAsset := "token"
  estimate := none
  completionTxHash := none
  completionLogIndex := none

/-- The first second of 2017. -/
def behindLeapSecond : Instant :=
  .ofUnixMillis 1483228800000

/-- The leap second is read back as the second behind it. -/
theorem leap_second_not_kept :
    (∃ s, (Orders.upsert leapOrder).run = sending s ∧
      ∃ record, Orders.Record.ofRow (Column.written Orders.columns s.params) = .ok record ∧
        record.toOrder = .ok { leapOrder with date := behindLeapSecond }) ∧
      leapOrder.date.truncated ≠ behindLeapSecond :=
  ⟨⟨_, run_writing_ok _ (Orders.values leapOrder), _, rfl, rfl⟩, by decide⟩

end Sql

end VaultTransfers
