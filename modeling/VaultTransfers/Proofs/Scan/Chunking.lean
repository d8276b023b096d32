import VaultTransfers.Proofs.Scan.Resolution
import VaultTransfers.Proofs.Scan.Tick

/-!
How a tick gets over the blocks between the cursor and the last final block. The
ranges that it asks for, one after the other, are told in naturals, so that it is
plain that no block is left out and no number wraps around. Wherever the tick
ends before the last range, the cursor has been moved over the ranges before and
no further.
-/

namespace VaultTransfers.Scan

open Program (Settles)

/-- The ranges, with both their ends, that the blocks behind `after` up to `last` are cut into, each
of `size` blocks but for the last. -/
def ranges (after last size : Nat) : List (Nat × Nat) :=
  (List.range ((last - after + size - 1) / size)).map fun i =>
    (after + i * size + 1, min (after + (i + 1) * size) last)

/-- The ranges cover the blocks behind `after` up to `last`, in their order and each once. -/
structure Tiles (after last size : Nat) (ranges : List (Nat × Nat)) : Prop where
  /-- The quotient, rounded up. -/
  count : ranges.length = (last - after + size - 1) / size
  idle : last ≤ after → ranges = []
  first : ∀ r, ranges.head? = some r → r.1 = after + 1
  final : ∀ r, ranges.getLast? = some r → r.2 = last
  consecutive : ∀ i r r', ranges[i]? = some r → ranges[i + 1]? = some r' → r'.1 = r.2 + 1
  disjoint : ranges.Pairwise fun r r' => r.2 < r'.1
  /-- No range is empty or too long. -/
  sized : ∀ r ∈ ranges, r.1 ≤ r.2 ∧ r.2 < r.1 + size

section

variable {after last size : Nat}

theorem lt_count_iff (pos : 0 < size) {i : Nat} :
    i < (last - after + size - 1) / size ↔ after + i * size < last := by
  rw [← Nat.succ_le_iff, Nat.le_div_iff_mul_le pos, Nat.succ_mul]
  omega

theorem length_ranges : (ranges after last size).length = (last - after + size - 1) / size := by
  rw [ranges, List.length_map, List.length_range]

theorem getElem?_ranges {i : Nat} (inside : i < (ranges after last size).length) :
    (ranges after last size)[i]? =
      some (after + i * size + 1, min (after + (i + 1) * size) last) := by
  rw [length_ranges] at inside
  rw [ranges, List.getElem?_map, List.getElem?_range inside]
  rfl

theorem getElem?_ranges_eq {i : Nat} {r : Nat × Nat}
    (found : (ranges after last size)[i]? = some r) :
    i < (last - after + size - 1) / size ∧
      r = (after + i * size + 1, min (after + (i + 1) * size) last) := by
  obtain ⟨inside, -⟩ := List.getElem?_eq_some_iff.mp found
  rw [getElem?_ranges inside, Option.some.injEq] at found
  exact ⟨length_ranges ▸ inside, found.symm⟩

theorem tiles_ranges (pos : 0 < size) : Tiles after last size (ranges after last size) where
  count := length_ranges
  idle behind := by
    rw [← List.length_eq_zero_iff, length_ranges]
    exact Nat.div_eq_of_lt (by omega)
  first r found := by
    rw [List.head?_eq_getElem?] at found
    obtain ⟨-, rfl⟩ := getElem?_ranges_eq found
    rw [Nat.zero_mul]
  final r found := by
    rw [List.getLast?_eq_getElem?] at found
    obtain ⟨inside, rfl⟩ := getElem?_ranges_eq found
    rw [length_ranges] at inside ⊢
    have beyond : ¬after + (last - after + size - 1) / size * size < last :=
      (lt_count_iff pos).not.mp (Nat.lt_irrefl _)
    rw [Nat.sub_add_cancel (by omega)]
    omega
  consecutive i r r' found found' := by
    obtain ⟨-, rfl⟩ := getElem?_ranges_eq found
    obtain ⟨inside, rfl⟩ := getElem?_ranges_eq found'
    have below := (lt_count_iff pos).mp inside
    change after + (i + 1) * size + 1 = min (after + (i + 1) * size) last + 1
    omega
  disjoint := by
    rw [ranges, List.pairwise_map]
    refine List.pairwise_lt_range.imp ?_
    intro i j earlier
    have grows : (i + 1) * size ≤ j * size := Nat.mul_le_mul_right size earlier
    change min (after + (i + 1) * size) last < after + j * size + 1
    omega
  sized r member := by
    obtain ⟨i, inside, rfl⟩ := List.mem_map.mp member
    have below := (lt_count_iff pos).mp (List.mem_range.mp inside)
    have next : (i + 1) * size = i * size + size := Nat.succ_mul i size
    change after + i * size + 1 ≤ min (after + (i + 1) * size) last ∧
      min (after + (i + 1) * size) last < after + i * size + 1 + size
    omega

end

/-- The end of a chunk does not run over, however near the ends of the range of numbers are. -/
theorem toNat_chunkEnd {cursor safe : UInt64} (below : cursor < safe) (size : UInt64) :
    (chunkEnd cursor safe size).toNat = min (cursor.toNat + size.toNat) safe.toNat := by
  have bound := safe.toNat_lt
  unfold chunkEnd
  split
  · rename_i short
    simp only [UInt64.le_iff_toNat_le, UInt64.lt_iff_toNat_lt,
      UInt64.toNat_sub_of_le safe cursor (UInt64.le_of_lt below)] at *
    omega
  · rename_i long
    simp only [UInt64.le_iff_toNat_le, UInt64.lt_iff_toNat_lt,
      UInt64.toNat_sub_of_le safe cursor (UInt64.le_of_lt below), UInt64.toNat_add] at *
    omega

theorem toNat_next {cursor safe : UInt64} (below : cursor < safe) :
    (cursor + 1).toNat = cursor.toNat + 1 := by
  have bound := safe.toNat_lt
  rw [UInt64.lt_iff_toNat_lt] at below
  rw [UInt64.toNat_add]
  exact Nat.mod_eq_of_lt (by simp only [UInt64.toNat_one]; omega)

theorem Plan.toNat_safeBlock (p : Plan) (latest : UInt64) :
    (p.safeBlock latest).toNat = latest.toNat - p.finalityOffset.toNat := by
  unfold Plan.safeBlock
  split
  · rename_i final
    exact UInt64.toNat_sub_of_le _ _ final
  · rename_i recent
    rw [UInt64.le_iff_toNat_le] at recent
    rw [UInt64.toNat_zero]
    omega

theorem Plan.toNat_chunkSize (s : Settings) :
    (Plan.ofSettings s).chunkSize.toNat = max 1 s.chunkSize.toNat := by
  change (if s.chunkSize = 0 then 1 else s.chunkSize).toNat = _
  split
  · rename_i zero
    rw [zero]
    rfl
  · rename_i positive
    have positive : 0 < s.chunkSize.toNat :=
      UInt64.lt_iff_toNat_lt.mp (UInt64.pos_iff_ne_zero.mpr positive)
    omega

/-- What can come in the way of a tick. -/
inductive Trouble where
  /-- A call has failed, or a log that cannot be decoded has been given out. -/
  | failure
  /-- The cursor has been moved by another scanner. -/
  | conflict
  /-- The tick has been told to stop. -/
  | stop
deriving DecidableEq

/-- The cursor, and what a tick has done so far. -/
structure Walk where
  cursor : Cursor
  /-- The ranges whose logs have been asked for. -/
  asked : List (Nat × Nat)
  /-- The ranges that the tick has moved the cursor over. -/
  moved : List (Nat × Nat)
  trouble : Option Trouble

namespace Walk

def fails (w : Walk) : Walk :=
  { w with trouble := some .failure }

def asks (first last : UInt64) (w : Walk) : Walk :=
  { w with asked := w.asked ++ [(first.toNat, last.toNat)] }

def moves (source target : UInt64) (w : Walk) : Walk :=
  { w with cursor := ⟨target⟩, moved := w.moved ++ [(source.toNat + 1, target.toNat)] }

/-- Of the logs, those that count can be decoded. -/
def Readable (contracts : Contracts) (logs : List Log) : Prop :=
  ∀ log ∈ logs, log.removed = false → ∃ r, log.resolve contracts = .ok r

/-- A reply of which something is known, or a failure. -/
def Told {ε α : Type} (known : α → Prop) (w : Walk) (reply : Except ε α) (t : Walk) : Prop :=
  (∃ a, known a ∧ reply = .ok a ∧ t = w) ∨ ∃ e, reply = .error e ∧ t = w.fails

/-- The head stays where it is, and nobody but another scanner that is in the way moves the cursor.
All other answers may be anything. -/
def serving (contracts : Contracts) (head : UInt64) : Service Scan.interface Walk :=
  fun c w reply t =>
    match c with
    | .chain .latestBlock => Told (· = head) w reply t
    | .chain (.logs first last _ _) =>
      (∃ logs, reply = .ok logs ∧ Readable contracts logs) ∧ t = w.asks first last ∨
        (¬∃ logs, reply = .ok logs ∧ Readable contracts logs) ∧ t = (w.asks first last).fails
    | .chain (.succeeded _) | .chain (.blockTime _) | .watchList _ | .outbox _ =>
      Told (fun _ => True) w reply t
    | .cursor .read => Told (· = w.cursor.block) w reply t
    | .cursor (.advance source target) =>
      w.cursor.admits source target = true ∧ reply = .ok true ∧ t = w.moves source target ∨
        (∃ other : Cursor, other.admits source target = false ∧ reply = .ok false ∧
          t = { w with cursor := other, trouble := some .conflict }) ∨
        ∃ e, reply = .error e ∧ t = w.fails
    | .knows _ | .remember _ => t = w
    | .stopRequested =>
      reply = true ∧ t = { w with trouble := some .stop } ∨ reply = false ∧ t = w

variable {contracts : Contracts} {head : UInt64} {w : Walk}

/-- Questions about logs leave a walk where it is. -/
def inquiry (contracts : Contracts) (head : UInt64) (w : Walk) :
    Inquiry (serving contracts head) where
  fine t := t = w
  broken _ t := t = w.fails
  watches _ _ := True
  succeeds _ _ := True
  dates _ _ := True
  knows := by
    rintro wallet s b t rfl rfl
    exact ⟨rfl, fun _ => trivial⟩
  remember := by
    rintro wallet s r t rfl - rfl
    rfl
  contains := by
    rintro wallet s r t rfl (⟨b, -, rfl, rfl⟩ | ⟨e, rfl, rfl⟩)
    · exact ⟨rfl, trivial⟩
    · rfl
  succeeded := by
    rintro txHash s r t rfl (⟨b, -, rfl, rfl⟩ | ⟨e, rfl, rfl⟩)
    · exact ⟨rfl, trivial⟩
    · rfl
  blockTime := by
    rintro number s r t rfl (⟨time, -, rfl, rfl⟩ | ⟨e, rfl, rfl⟩)
    · exact ⟨rfl, trivial⟩
    · rfl

theorem readable_iff {logs : List Log} :
    Readable contracts logs ↔
      ∀ log ∈ Log.inOrder (logs.filter (!·.removed)), ∃ r, log.resolve contracts = .ok r := by
  simp only [Readable, Log.inOrder, List.mem_mergeSort, List.mem_filter, Bool.not_eq_true', and_imp]

theorem settles_resolveRange (p : Plan) (first last : UInt64) :
    Settles (serving p.contracts head) (resolveRange p first last) w
      (fun _ t => t = w.asks first last) fun _ t => t = (w.asks first last).fails := by
  rw [resolveRange_eq]
  refine Settles.bind (settles_orFail (Settles.perform ?_))
  rintro reply t (⟨⟨logs, rfl, readable⟩, rfl⟩ | ⟨garbled, rfl⟩)
  · refine ((inquiry p.contracts head _).settles_resolveAll p _ rfl).mono ?_ ?_
    · exact fun es t told => told.1
    · rintro fault t (broken | ⟨-, f, -, stops⟩)
      · exact broken
      · exact absurd (readable_iff.mp readable) stops.not_decoded
  · cases reply with
    | error e => rfl
    | ok logs =>
        refine ((inquiry p.contracts head _).settles_resolveAll p _ rfl).mono ?_ ?_
        · rintro es t ⟨-, found, picks, -⟩
          exact absurd ⟨logs, rfl, readable_iff.mpr picks.decoded⟩ garbled
        · rintro fault t (broken | ⟨same, -⟩)
          · exact broken
          · exact same

theorem settles_recordAll (es : List VaultEvent) :
    Settles (serving contracts head) (recordAll es) w (fun _ t => t = w)
      fun _ t => t = w.fails := by
  induction es with
  | nil => exact Settles.pure rfl
  | cons e es ih =>
      refine Settles.bind (settles_orFail (Settles.perform ?_))
      rintro reply t (⟨_, -, rfl, rfl⟩ | ⟨fault, rfl, rfl⟩)
      · exact ih
      · rfl

theorem settles_scanRange (p : Plan) (first last : UInt64) :
    Settles (serving p.contracts head) (scanRange p first last) w
      (fun _ t => t = w.asks first last) fun _ t => t = (w.asks first last).fails := by
  refine Settles.bind ((settles_resolveRange p first last).mono ?_ fun _ _ failed => failed)
  rintro es t rfl
  refine Settles.bind ((settles_recordAll es).mono ?_ fun _ _ failed => failed)
  rintro _ t rfl
  exact Settles.pure rfl

/-- It may be that nothing fails, and that there are no logs. -/
theorem runs_scanRange (p : Plan) (first last : UInt64) :
    Program.Runs (serving p.contracts head) (scanRange p first last).run w (.ok 0)
      (w.asks first last) := by
  have no_logs : Log.inOrder [] = [] := List.mergeSort_nil
  have no_keys : distinctInOrder [] = [] := by
    rw [distinctInOrder, List.mergeSort_nil]
    rfl
  have readable : Readable p.contracts [] := fun _ none_ => absurd none_ List.not_mem_nil
  have resolved : Program.Runs (serving p.contracts head) (resolveRange p first last).run w
      (.ok []) (w.asks first last) := by
    refine ⟨.ok [], _, .inl ⟨⟨[], rfl, readable⟩, rfl⟩, ?_⟩
    change Program.Runs _ (resolveAll p (Log.inOrder [])).run _ _ _
    rw [no_logs]
    -- neither transactions nor blocks are left to be asked about
    change Program.Runs _ (lookUpAll _ ((distinctInOrder []).map _) >>= _ : Task _).run _ _ _
    rw [no_keys]
    change Program.Runs _ (lookUpAll _ ((distinctInOrder []).map _) >>= _ : Task _).run _ _ _
    rw [no_keys]
    exact ⟨rfl, rfl⟩
  exact Program.runs_except_bind_iff.mpr ⟨_, _, resolved, rfl, rfl⟩

theorem settles_advance (source target : UInt64) :
    Settles (serving contracts head) (askCursor (.advance source target)) w
      (fun moved t => moved = true ∧ t = w.moves source target ∨
        moved = false ∧ ∃ other, t = { w with cursor := other, trouble := some .conflict })
      fun _ t => t = w.fails := by
  refine settles_orFail (Settles.perform ?_)
  rintro reply t (⟨-, rfl, rfl⟩ | ⟨other, -, rfl, rfl⟩ | ⟨e, rfl, rfl⟩)
  · exact .inl ⟨rfl, rfl⟩
  · exact .inr ⟨rfl, other, rfl⟩
  · rfl

/-- The walk is behind the first `j` ranges, and nothing has come in its way. -/
structure At (after last size j : Nat) (w : Walk) : Prop where
  inside : j ≤ (ranges after last size).length
  asked : w.asked = (ranges after last size).take j
  moved : w.moved = (ranges after last size).take j
  cursor : w.cursor.block.toNat = min (after + j * size) (max after last)
  clear : w.trouble = none

/-- How a tick ends that starts behind the block `after`. -/
inductive Ended (after last size : Nat) : Except Fault Summary → Walk → Prop
  /-- The head or the cursor could not be read. -/
  | unread {fault : Fault} {w : Walk} (trouble : w.trouble = some .failure) (asked : w.asked = [])
      (moved : w.moved = []) (cursor : w.cursor.block.toNat = after) :
      Ended after last size (.error fault) w
  /-- Nothing has come in the way. -/
  | over {s : Summary} {w : Walk} (trouble : w.trouble = none)
      (asked : w.asked = ranges after last size) (moved : w.moved = ranges after last size)
      (cursor : w.cursor.block.toNat = max after last)
      (counted : s.chunks = (ranges after last size).length) : Ended after last size (.ok s) w
  /-- Told to stop ahead of the range number `j`. -/
  | stopped {s : Summary} {w : Walk} {j : Nat} (inside : j < (ranges after last size).length)
      (trouble : w.trouble = some .stop) (asked : w.asked = (ranges after last size).take j)
      (moved : w.moved = (ranges after last size).take j)
      (cursor : w.cursor.block.toNat = after + j * size) (counted : s.chunks = j) :
      Ended after last size (.ok s) w
  /-- The range number `j` has failed. -/
  | failed {fault : Fault} {w : Walk} {j : Nat} (inside : j < (ranges after last size).length)
      (trouble : w.trouble = some .failure)
      (asked : w.asked = (ranges after last size).take (j + 1))
      (moved : w.moved = (ranges after last size).take j)
      (cursor : w.cursor.block.toNat = after + j * size) : Ended after last size (.error fault) w
  /-- Behind the range number `j`, the cursor was not where it had been. -/
  | overtaken {s : Summary} {w : Walk} {j : Nat} (inside : j < (ranges after last size).length)
      (trouble : w.trouble = some .conflict)
      (asked : w.asked = (ranges after last size).take (j + 1))
      (moved : w.moved = (ranges after last size).take j) (counted : s.chunks = j) :
      Ended after last size (.ok s) w

variable {after last size j : Nat}

namespace At

theorem start (cursor : Cursor) (last size : Nat) :
    At cursor.block.toNat last size 0 ⟨cursor, [], [], none⟩ where
  inside := Nat.zero_le _
  asked := rfl
  moved := rfl
  cursor := by
    change cursor.block.toNat = min (cursor.block.toNat + 0 * size) (max cursor.block.toNat last)
    rw [Nat.zero_mul]
    omega
  clear := rfl

variable (here : w.At after last size j) (pos : 0 < size)

include here pos

/-- There is another range just if the cursor is not at the last block. -/
theorem lt_length_iff : j < (ranges after last size).length ↔ w.cursor.block.toNat < last := by
  rw [length_ranges, lt_count_iff pos, here.cursor]
  omega

theorem cursor_eq (more : j < (ranges after last size).length) :
    w.cursor.block.toNat = after + j * size := by
  have cursor := here.cursor
  rw [length_ranges, lt_count_iff pos] at more
  omega

theorem take_succ (more : j < (ranges after last size).length) {first target : UInt64}
    (first_eq : first.toNat = w.cursor.block.toNat + 1)
    (target_eq : target.toNat = min (w.cursor.block.toNat + size) last) :
    (ranges after last size).take (j + 1) =
      (ranges after last size).take j ++ [(first.toNat, target.toNat)] := by
  have next : (j + 1) * size = j * size + size := Nat.succ_mul j size
  rw [List.take_add_one, getElem?_ranges more, first_eq, target_eq, here.cursor_eq pos more, next,
    ← Nat.add_assoc]
  rfl

theorem advanced (more : j < (ranges after last size).length) {first target : UInt64}
    (first_eq : first.toNat = w.cursor.block.toNat + 1)
    (target_eq : target.toNat = min (w.cursor.block.toNat + size) last) :
    ((w.asks first target).moves w.cursor.block target).At after last size (j + 1) where
  inside := more
  asked := by
    rw [here.take_succ pos more first_eq target_eq, ← here.asked]
    rfl
  moved := by
    rw [here.take_succ pos more first_eq target_eq, ← here.moved, first_eq]
    rfl
  cursor := by
    have next : (j + 1) * size = j * size + size := Nat.succ_mul j size
    have below := (here.lt_length_iff pos).mp more
    have cursor := here.cursor_eq pos more
    change target.toNat = _
    rw [target_eq, next]
    omega
  clear := here.clear

section

variable {p : Plan} {s : Summary} (cursor : s.cursor = w.cursor.block)
  (safe : s.safeBlock.toNat = last) (chunk : p.chunkSize.toNat = size)

include cursor safe chunk

/-- The chunk behind the cursor is the next range. -/
theorem next_chunk (below : s.cursor < s.safeBlock) :
    j < (ranges after last size).length ∧
      (s.cursor + 1).toNat = w.cursor.block.toNat + 1 ∧
      (chunkEnd s.cursor s.safeBlock p.chunkSize).toNat =
        min (w.cursor.block.toNat + size) last := by
  refine ⟨?_, ?_, ?_⟩
  · rw [here.lt_length_iff pos, ← cursor, ← safe]
    exact UInt64.lt_iff_toNat_lt.mp below
  · rw [← cursor]
    exact toNat_next below
  · rw [toNat_chunkEnd below, cursor, safe, chunk]

/-- It may be that nothing comes in the way of the loop. -/
theorem runs_chunks :
    ∃ s' t, Program.Runs (serving p.contracts head) (chunks p s).run w (.ok s') t ∧
      t.trouble = none := by
  -- the induction is on the ranges that are left
  induction left : (ranges after last size).length - j using Nat.strongRecOn
    generalizing s w j with
  | ind n ih =>
      rw [chunks]
      split
      · rename_i below
        obtain ⟨more, first_eq, target_eq⟩ := here.next_chunk pos cursor safe chunk below
        have next := here.advanced pos more first_eq target_eq
        have admitted : w.cursor.admits s.cursor (chunkEnd s.cursor s.safeBlock p.chunkSize) =
            true := by
          rw [Cursor.admits, Bool.and_eq_true, decide_eq_true_eq, decide_eq_true_eq]
          exact ⟨cursor.symm, lt_chunkEnd below p.chunkSize_pos⟩
        rw [← cursor] at next
        obtain ⟨s', t, rest, quiet⟩ := ih _ (by omega) next
          (s := ⟨s.safeBlock, chunkEnd s.cursor s.safeBlock p.chunkSize, s.chunks + 1,
            s.recorded + 0⟩) rfl safe rfl
        refine ⟨s', t, ⟨false, w, .inr ⟨rfl, rfl⟩, ?_⟩, quiet⟩
        refine Program.runs_except_bind_iff.mpr ⟨_, _, runs_scanRange p _ _, ?_⟩
        exact ⟨.ok true, _, .inl ⟨admitted, rfl, rfl⟩, rest⟩
      · exact ⟨_, _, ⟨rfl, rfl⟩, here.clear⟩

/-- A loop that starts behind some of the ranges goes on behind them, to the last or until something
comes in its way. -/
theorem settles_chunks (counted : s.chunks = j) :
    Settles (serving p.contracts head) (chunks p s) w
      (fun s t => Ended after last size (.ok s) t)
      fun fault t => Ended after last size (.error fault) t := by
  -- the induction is on the ranges that are left
  induction left : (ranges after last size).length - j using Nat.strongRecOn
    generalizing s w j with
  | ind n ih =>
      rw [chunks]
      split
      · rename_i below
        obtain ⟨more, first_eq, target_eq⟩ := here.next_chunk pos cursor safe chunk below
        have block := here.cursor_eq pos more
        refine Settles.bind (Settles.perform ?_)
        rintro stopped t (⟨rfl, rfl⟩ | ⟨rfl, rfl⟩)
        · exact Settles.pure (.stopped more rfl here.asked here.moved block counted)
        · have asked := here.take_succ pos more first_eq target_eq
          rw [← here.asked] at asked
          refine Settles.bind ((settles_scanRange p _ _).mono ?_ ?_)
          swap
          · rintro fault t rfl
            exact .failed more rfl asked.symm here.moved block
          rintro recorded t rfl
          refine Settles.bind ((settles_advance _ _).mono ?_ ?_)
          swap
          · rintro fault t rfl
            exact .failed more rfl asked.symm here.moved block
          rintro moved t (⟨rfl, rfl⟩ | ⟨rfl, other, rfl⟩)
          · have next := here.advanced pos more first_eq target_eq
            rw [← cursor] at next
            refine ih _ ?_ next rfl safe (congrArg (· + 1) counted) rfl
            omega
          · exact Settles.pure (.overtaken more rfl asked.symm here.moved counted)
      · rename_i there
        have reached : ¬w.cursor.block.toNat < last := by
          rw [← cursor, ← safe]
          exact fun below => there (UInt64.lt_iff_toNat_lt.mpr below)
        have all : j = (ranges after last size).length :=
          Nat.le_antisymm here.inside (Nat.not_lt.mp ((here.lt_length_iff pos).not.mpr reached))
        refine Settles.pure (.over here.clear ?_ ?_ ?_ (counted.trans all))
        · rw [here.asked, all, List.take_length]
        · rw [here.moved, all, List.take_length]
        · have block := here.cursor
          omega

end

end At

theorem settles_tick (p : Plan) (head : UInt64) (cursor : Cursor) :
    Settles (serving p.contracts head) (tick p) ⟨cursor, [], [], none⟩
      (fun s t => Ended cursor.block.toNat (head.toNat - p.finalityOffset.toNat)
        p.chunkSize.toNat (.ok s) t)
      fun fault t => Ended cursor.block.toNat (head.toNat - p.finalityOffset.toNat)
        p.chunkSize.toNat (.error fault) t := by
  refine Settles.bind (settles_orFail (Settles.perform ?_))
  rintro reply t (⟨latest, rfl, rfl, rfl⟩ | ⟨e, rfl, rfl⟩)
  · refine Settles.bind (settles_orFail (Settles.perform ?_))
    rintro reply t (⟨block, rfl, rfl, rfl⟩ | ⟨e, rfl, rfl⟩)
    · exact (At.start cursor _ _).settles_chunks (UInt64.lt_iff_toNat_lt.mp p.chunkSize_pos) rfl
        (p.toNat_safeBlock latest) rfl rfl
    · exact .unread rfl rfl rfl rfl
  · exact .unread rfl rfl rfl rfl

/-- It may be that nothing comes in the way of a tick. -/
theorem runs_tick (p : Plan) (head : UInt64) (cursor : Cursor) :
    ∃ s t, Program.Runs (serving p.contracts head) (tick p).run ⟨cursor, [], [], none⟩ (.ok s) t ∧
      t.trouble = none := by
  obtain ⟨s, t, rest, quiet⟩ := (At.start cursor _ _).runs_chunks
    (UInt64.lt_iff_toNat_lt.mp p.chunkSize_pos) (p := p)
    (s := ⟨p.safeBlock head, cursor.block, 0, 0⟩) rfl (p.toNat_safeBlock head) rfl
  exact ⟨s, t, ⟨.ok head, _, .inl ⟨_, rfl, rfl, rfl⟩,
    .ok cursor.block, _, .inl ⟨_, rfl, rfl, rfl⟩, rest⟩, quiet⟩

/-- A tick asks for the blocks behind the cursor up to the last final one, range after range, and
moves the cursor over each; these ranges cover the blocks, whatever the numbers are. It ends early
only if something comes in its way, and then has moved the cursor over the ranges before, and asked
for no range behind. -/
theorem tick_covers (settings : Settings) (head : UInt64) (cursor : Cursor) :
    let plan := Plan.ofSettings settings
    let after := cursor.block.toNat
    let last := head.toNat - settings.finalityOffset.toNat
    let size := max 1 settings.chunkSize.toNat
    Tiles after last size (ranges after last size) ∧
      (∃ s t, Program.Runs (serving plan.contracts head) (tick plan).run ⟨cursor, [], [], none⟩
        (.ok s) t ∧ t.trouble = none) ∧
      ∀ reply t, Program.Runs (serving plan.contracts head) (tick plan).run ⟨cursor, [], [], none⟩
        reply t → Ended after last size reply t := by
  intro plan after last size
  refine ⟨tiles_ranges (by omega), runs_tick plan head cursor, ?_⟩
  intro reply t run
  obtain ⟨well, ill⟩ := settles_tick plan head cursor
  rw [Plan.toNat_chunkSize] at well ill
  cases reply with
  | ok s => exact well s t run
  | error fault => exact ill fault t run

/-- Nothing comes in the way, and there are no logs. -/
def calmly (head : UInt64) : (c : Scan.Call) → StateM Walk (Scan.Reply c)
  | .chain .latestBlock => fun w => (.ok head, w)
  | .chain (.logs first last _ _) => fun w => (.ok [], w.asks first last)
  | .chain (.succeeded _) => fun w => (.ok true, w)
  | .chain (.blockTime _) => fun w => (.ok (.ofUnixMillis 0), w)
  | .watchList (.register _) | .watchList (.contains _) => fun w => (.ok true, w)
  | .outbox _ => fun w => (.error (.outOfRange 0), w.fails)
  | .cursor .read => fun w => (.ok w.cursor.block, w)
  | .cursor (.advance source target) => fun w =>
    if w.cursor.admits source target then (.ok true, w.moves source target)
    else (.error (.outOfRange 0), w.fails)
  | .knows _ => fun w => (false, w)
  | .remember _ => fun w => ((), w)
  | .stopRequested => fun w => (false, w)

theorem serving_calmly (contracts : Contracts) (head : UInt64) (c : Scan.Call) (w : Walk) :
    serving contracts head c w (calmly head c w).1 (calmly head c w).2 := by
  cases c with
  | chain c =>
      cases c with
      | latestBlock => exact .inl ⟨head, rfl, rfl, rfl⟩
      | logs first last _ _ =>
          have readable : Readable contracts [] := fun _ none_ => absurd none_ List.not_mem_nil
          exact .inl ⟨⟨[], rfl, readable⟩, rfl⟩
      | succeeded _ => exact .inl ⟨_, trivial, rfl, rfl⟩
      | blockTime _ => exact .inl ⟨_, trivial, rfl, rfl⟩
  | watchList c => cases c <;> exact .inl ⟨_, trivial, rfl, rfl⟩
  | outbox c => exact .inr ⟨_, rfl, rfl⟩
  | cursor c =>
      cases c with
      | read => exact .inl ⟨_, rfl, rfl, rfl⟩
      | advance source target =>
          cases admitted : w.cursor.admits source target with
          | true =>
              simp only [calmly, admitted, if_true]
              exact .inl ⟨admitted, rfl, rfl⟩
          | false =>
              simp only [calmly, admitted, Bool.false_eq_true, if_false]
              exact .inr (.inr ⟨_, rfl, rfl⟩)
  | knows _ => rfl
  | remember _ => rfl
  | stopRequested => exact .inr ⟨rfl, rfl⟩

/-- The chunks have three blocks. -/
def sampleSettings : Settings where
  rpcUrl := ""
  databaseUrl := ""
  brokers := ""
  topic := ""
  groupId := ""
  chainId := 1
  finalityOffset := 1
  chunkSize := 3
  startBlock := 0
  scanInterval := 1
  publishInterval := 1
  publishBatchSize := 10
  outboxReclaimAfter := 60
  rpcTimeout := 1
  rpcRateLimit := 1
  dbTimeout := 1
  busTimeout := 1
  monitoredCacheTtl := 0
  contracts := samplePlan.contracts
  serverHost := ""
  serverPort := 0

def sampleWalk : Except Fault Summary × Walk :=
  (tick (Plan.ofSettings sampleSettings)).run.interpret (calmly 18446744073709551615)
    ⟨⟨18446744073709551610⟩, [], [], none⟩

/-- The head has the largest number that there is. -/
theorem tick_covers_up_to_last_number :
    (sampleWalk.2.trouble = none ∧ sampleWalk.2.moved =
        [(18446744073709551611, 18446744073709551613),
          (18446744073709551614, 18446744073709551614)]) ∧
      Ended 18446744073709551610 18446744073709551614 3 sampleWalk.1 sampleWalk.2 := by
  have run : Program.Runs (serving (Plan.ofSettings sampleSettings).contracts 18446744073709551615)
      (tick (Plan.ofSettings sampleSettings)).run ⟨⟨18446744073709551610⟩, [], [], none⟩
        sampleWalk.1 sampleWalk.2 :=
    Program.runs_of_interpret (serving_calmly _ _) rfl
  exact ⟨by decide +kernel, (tick_covers sampleSettings _ _).2.2 _ _ run⟩

end Walk

end VaultTransfers.Scan
