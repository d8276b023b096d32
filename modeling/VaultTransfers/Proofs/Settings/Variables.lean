import VaultTransfers.Proofs.Amount.Grammar
import VaultTransfers.Proofs.Http.Serving
import VaultTransfers.Settings

/-!
Environment variables and what they have to hold. A variable is told to be a count
of a range, an integer, an address or just some text; its readers accept what it
is told to be, between blanks, and nothing else, and yield what the text denotes.
-/

namespace VaultTransfers

namespace Text

open Amount (IsDigits)

/-- Digits that denote the number, with an optional plus in front. -/
def IsCount (cs : List Char) (n : Nat) : Prop :=
  ∃ digits, (cs = digits ∨ cs = '+' :: digits) ∧ digits ≠ [] ∧ IsDigits digits ∧
    Nat.ofDigitChars 10 digits 0 = n

/-- Digits that denote the number, with an optional sign in front. -/
def IsInteger (cs : List Char) (n : Int) : Prop :=
  (∃ m : Nat, IsCount cs m ∧ n = m) ∨
    ∃ digits, cs = '-' :: digits ∧ digits ≠ [] ∧ IsDigits digits ∧
      n = -(Nat.ofDigitChars 10 digits 0 : Int)

/-- Forty hexadecimal digits of the address, with an optional mark in front. -/
def IsAddress (cs : List Char) (a : Address) : Prop :=
  ∃ digits, (cs = digits ∨ cs = '0' :: 'x' :: digits ∨ cs = '0' :: 'X' :: digits) ∧
    digits.length = 40 ∧ (∀ c ∈ digits, isHexDigit c = true) ∧ Address.ofNat (hexNumber digits) = a

theorem isDigit_of_digitValue? {c : Char} {d : Nat} (value : digitValue? 10 c = some d) :
    c.isDigit = true := by
  obtain ⟨hex, small⟩ := Option.filter_eq_some_iff.mp value
  have below := of_decide_eq_true small
  unfold hexValue? at hex
  split at hex
  · rename_i range
    simp only [Char.isDigit, Bool.and_eq_true, decide_eq_true_eq]
    exact range
  · -- the letters stand for ten and more
    split at hex
    · have := Option.some.inj hex
      omega
    · split at hex
      · have := Option.some.inj hex
        omega
      · cases hex

theorem isDigits_of_addDigits {ds : List Char} {limit n m : Nat}
    (added : addDigits 10 limit n ds = .ok m) : IsDigits ds := by
  induction ds generalizing n with
  | nil => exact Amount.IsDigits.nil
  | cons c cs ih =>
      rw [addDigits] at added
      split at added
      · cases added
      · rename_i d value
        split at added
        · exact Amount.isDigits_cons.mpr ⟨isDigit_of_digitValue? value, ih added⟩
        · cases added

/-- Digits are added up just if they are digits of a number below the limit. -/
theorem addDigits_eq_some_iff {ds : List Char} {limit m : Nat} (positive : 0 < limit) :
    (addDigits 10 limit 0 ds).toOption = some m ↔
      IsDigits ds ∧ Nat.ofDigitChars 10 ds 0 = m ∧ m < limit := by
  constructor
  · intro added
    have read : addDigits 10 limit 0 ds = .ok m := by
      cases read : addDigits 10 limit 0 ds with
      | ok n => rw [read] at added; exact congrArg _ (Option.some.inj added)
      | error fault => rw [read] at added; cases added
    have digits := isDigits_of_addDigits read
    rw [Amount.addDigits_eq digits positive] at added
    split at added
    · rename_i below
      obtain rfl := Option.some.inj added
      exact ⟨digits, rfl, below⟩
    · cases added
  · rintro ⟨digits, rfl, below⟩
    rw [Amount.addDigits_eq digits positive, if_pos below]

theorem not_isDigits_plus (ds : List Char) : ¬ IsDigits ('+' :: ds) :=
  fun digits => absurd (Amount.isDigits_cons.mp digits).1 (by decide)

theorem not_isDigits_minus (ds : List Char) : ¬ IsDigits ('-' :: ds) :=
  fun digits => absurd (Amount.isDigits_cons.mp digits).1 (by decide)

theorem natBelow?_eq_some_iff {limit n : Nat} (positive : 0 < limit) {cs : List Char} :
    natBelow? limit cs = some n ↔ IsCount cs n ∧ n < limit := by
  unfold natBelow? readNat
  split
  · refine ⟨nofun, ?_⟩
    rintro ⟨⟨digits, rfl | ends, some_, -, -⟩, -⟩
    · exact absurd rfl some_
    · cases ends
  · refine ⟨nofun, ?_⟩
    rintro ⟨⟨digits, rfl | ends, some_, isDigits, -⟩, -⟩
    · exact absurd isDigits (not_isDigits_plus [])
    · exact absurd (List.cons.inj ends).2.symm some_
  · rename_i digits several
    rw [addDigits_eq_some_iff positive]
    constructor
    · rintro ⟨isDigits, denoted, below⟩
      exact ⟨⟨digits, .inr rfl, fun none_ => several (none_ ▸ rfl), isDigits, denoted⟩, below⟩
    · rintro ⟨⟨digits', rfl | ends, -, isDigits, denoted⟩, below⟩
      · exact absurd isDigits (not_isDigits_plus digits)
      · rw [(List.cons.inj ends).2]
        exact ⟨isDigits, denoted, below⟩
  · rename_i some_ single signed
    rw [addDigits_eq_some_iff positive]
    constructor
    · rintro ⟨isDigits, denoted, below⟩
      exact ⟨⟨cs, .inl rfl, some_, isDigits, denoted⟩, below⟩
    · rintro ⟨⟨digits, rfl | rfl, -, isDigits, denoted⟩, below⟩
      · exact ⟨isDigits, denoted, below⟩
      · exact absurd rfl (signed digits)

theorem IsCount.unique {cs : List Char} {m n : Nat} (first : IsCount cs m) (second : IsCount cs n) :
    m = n := by
  have read : natBelow? (m + n + 1) cs = some m :=
    (natBelow?_eq_some_iff (Nat.succ_pos _)).mpr ⟨first, by omega⟩
  have read' : natBelow? (m + n + 1) cs = some n :=
    (natBelow?_eq_some_iff (Nat.succ_pos _)).mpr ⟨second, by omega⟩
  exact Option.some.inj (read.symm.trans read')

theorem not_isCount_minus (ds : List Char) (n : Nat) : ¬ IsCount ('-' :: ds) n := by
  rintro ⟨digits, rfl | ends, -, isDigits, -⟩
  · exact not_isDigits_minus ds isDigits
  · cases ends

theorem isInteger_minus_iff {ds : List Char} {n : Int} :
    IsInteger ('-' :: ds) n ↔
      ds ≠ [] ∧ IsDigits ds ∧ n = -(Nat.ofDigitChars 10 ds 0 : Int) := by
  constructor
  · rintro (⟨m, count, -⟩ | ⟨digits, ends, some_, isDigits, denoted⟩)
    · exact absurd count (not_isCount_minus ds m)
    · rw [(List.cons.inj ends).2]
      exact ⟨some_, isDigits, denoted⟩
  · rintro ⟨some_, isDigits, denoted⟩
    exact .inr ⟨ds, rfl, some_, isDigits, denoted⟩

/-- An integer of 64 bits. -/
def InRange (n : Int) : Prop :=
  -(twoTo 63 : Int) ≤ n ∧ n < twoTo 63

theorem int64?_eq_some_iff {cs : List Char} {n : Int} :
    int64? cs = some n ↔ IsInteger cs n ∧ InRange n := by
  unfold int64?
  split
  · refine ⟨nofun, fun integer => ?_⟩
    exact absurd rfl (isInteger_minus_iff.mp integer.1).1
  · rename_i ds several
    rw [isInteger_minus_iff, Option.map_eq_some_iff]
    simp only [bind, Option.bind_eq_some_iff, pure, Option.some.injEq]
    constructor
    · rintro ⟨_, ⟨m, added, rfl⟩, rfl⟩
      obtain ⟨isDigits, rfl, below⟩ := (addDigits_eq_some_iff (Nat.succ_pos _)).mp added
      have positive := twoTo_pos 63
      refine ⟨⟨fun none_ => several (none_ ▸ rfl), isDigits, rfl⟩, ?_, ?_⟩ <;> omega
    · rintro ⟨⟨some_, isDigits, rfl⟩, low, -⟩
      refine ⟨_, ⟨Nat.ofDigitChars 10 ds 0, ?_, rfl⟩, rfl⟩
      have below : Nat.ofDigitChars 10 ds 0 < twoTo 63 + 1 := by omega
      exact (addDigits_eq_some_iff (Nat.succ_pos _)).mpr ⟨isDigits, rfl, below⟩
  · rename_i single signed
    rw [Option.map_eq_some_iff]
    simp only [bind, Option.bind_eq_some_iff, pure, Option.some.injEq]
    constructor
    · rintro ⟨_, ⟨m, read, rfl⟩, rfl⟩
      obtain ⟨count, below⟩ := (natBelow?_eq_some_iff (twoTo_pos 63)).mp read
      refine ⟨.inl ⟨m, count, rfl⟩, ?_, ?_⟩ <;> omega
    · rintro ⟨⟨m, count, rfl⟩ | ⟨ds, rfl, -, -, -⟩, -, below⟩
      · have small : m < twoTo 63 := by omega
        exact ⟨_, ⟨m, (natBelow?_eq_some_iff (twoTo_pos 63)).mpr ⟨count, small⟩, rfl⟩, rfl⟩
      · exact absurd rfl (signed ds)

theorem IsInteger.unique {cs : List Char} {m n : Int} (first : IsInteger cs m)
    (second : IsInteger cs n) : m = n := by
  rcases first with ⟨m, count, rfl⟩ | ⟨ds, rfl, -, -, rfl⟩
  · rcases second with ⟨n, count', rfl⟩ | ⟨ds, rfl, -, -, -⟩
    · rw [count.unique count']
    · exact absurd count (not_isCount_minus ds m)
  · exact (isInteger_minus_iff.mp second).2.2.symm

theorem byteLength_of_hex {ds : List Char} (hex : ∀ c ∈ ds, isHexDigit c = true) :
    byteLength ds = ds.length := by
  have single : ∀ c ∈ ds, c.utf8Size = 1 := by
    intro c member
    obtain ⟨v, value⟩ := Option.isSome_iff_exists.mp (hex c member)
    have range := range_of_hexValue? value
    rw [Char.utf8Size_eq_one_iff]
    exact UInt32.le_iff_toNat_le.mpr (by simpa using Nat.le_trans range.2.2 (by decide))
  have folded (n : Nat) : ds.foldl (fun n c => n + c.utf8Size) n = n + ds.length := by
    induction ds generalizing n with
    | nil => rfl
    | cons c cs ih =>
        obtain ⟨here, there⟩ := List.forall_mem_cons.mp single
        rw [List.foldl_cons, ih (fun d member => hex d (List.mem_cons_of_mem c member)) there, here,
          List.length_cons]
        omega
  exact (folded 0).trans (Nat.zero_add _)

theorem firstNonDigit?_eq_none_iff {ds : List Char} {i : Nat} :
    firstNonDigit? ds i = none ↔ ∀ c ∈ ds, isHexDigit c = true := by
  induction ds generalizing i with
  | nil => simp [firstNonDigit?]
  | cons c cs ih =>
      rw [firstNonDigit?, List.forall_mem_cons]
      split
      · rename_i digit
        rw [ih, and_iff_right digit]
      · rename_i other
        exact ⟨nofun, fun hex => absurd hex.1 other⟩

/-- Digits have no mark; the mark's letter is none of them. -/
theorem dropHexMark_of_hex {ds : List Char} (hex : ∀ c ∈ ds, isHexDigit c = true) :
    dropHexMark ds = ds := by
  unfold dropHexMark
  split
  · exact absurd (hex 'x' (by simp)) (by decide)
  · exact absurd (hex 'X' (by simp)) (by decide)
  · rfl

theorem dropHexMark_cases (cs : List Char) :
    cs = dropHexMark cs ∨ cs = '0' :: 'x' :: dropHexMark cs ∨ cs = '0' :: 'X' :: dropHexMark cs := by
  unfold dropHexMark
  split
  · exact .inr (.inl rfl)
  · exact .inr (.inr rfl)
  · exact .inl rfl

theorem readHex_eq_ok_iff {size : Nat} {cs ds : List Char} :
    readHex (some size) cs = .ok ds ↔
      dropHexMark cs = ds ∧ ds.length = 2 * size ∧ ∀ c ∈ ds, isHexDigit c = true := by
  have expected : ((some size).any fun n => decide (n * 2 ≠ byteLength (dropHexMark cs))) = true ↔
      size * 2 ≠ byteLength (dropHexMark cs) := decide_eq_true_iff
  simp only [readHex, expected]
  constructor
  · intro read
    split at read
    · cases read
    · split at read
      · cases read
      · split at read
        · cases read
        · rename_i _ counted _ plain
          have hex := firstNonDigit?_eq_none_iff.mp plain
          obtain rfl := Except.ok.inj read
          rw [byteLength_of_hex hex] at counted
          exact ⟨rfl, by omega, hex⟩
  · rintro ⟨rfl, length, hex⟩
    rw [byteLength_of_hex hex, length, firstNonDigit?_eq_none_iff.mpr hex, if_neg (by omega),
      if_neg (by omega)]

end Text

theorem Address.ofText_eq_some_iff {cs : List Char} {a : Address} :
    (ofText cs).toOption = some a ↔ Text.IsAddress cs a := by
  constructor
  · intro read
    unfold ofText at read
    cases digits : Text.readHex (some 20) cs with
    | error fault =>
        rw [digits] at read
        cases read
    | ok ds =>
        rw [digits] at read
        obtain ⟨rfl, length, hex⟩ := Text.readHex_eq_ok_iff.mp digits
        exact ⟨_, Text.dropHexMark_cases cs, length, hex, Option.some.inj read⟩
  · rintro ⟨ds, marked, length, hex, rfl⟩
    have dropped : Text.dropHexMark cs = ds := by
      rcases marked with rfl | rfl | rfl
      · exact Text.dropHexMark_of_hex hex
      · rfl
      · rfl
    have digits : Text.readHex (some 20) cs = .ok ds :=
      Text.readHex_eq_ok_iff.mpr ⟨dropped, length, hex⟩
    rw [ofText, digits]
    rfl

/-- What a variable has to hold: more than blanks, whatever it is; or, unless it is left unset, a count
of a range, an integer of 64 bits, or an address. -/
inductive Demand where
  | filled
  | count (least bound : Nat)
  | integer
  | address
deriving DecidableEq, Repr

structure Variable where
  name : String
  demand : Demand
deriving DecidableEq, Repr

namespace Environment

/-- The variable is set, to this text between blanks. -/
def Holds (env : Environment) (name : String) (cs : List Char) : Prop :=
  ∃ value, env.text? name = some value ∧ Text.trim value.toList = cs

/-- The variable holds a text of the value, or it is not set and the value is the default. -/
def Tells (env : Environment) (name : String) (reads : List Char → α → Prop) (default a : α) : Prop :=
  env.text? name = none ∧ a = default ∨ ∃ cs, env.Holds name cs ∧ reads cs a

end Environment

namespace Variable

def Met (v : Variable) (env : Environment) : Prop :=
  match v.demand with
  | .filled => ∃ cs, env.Holds v.name cs ∧ cs ≠ []
  | .count least bound =>
    ∀ cs, env.Holds v.name cs → ∃ n, Text.IsCount cs n ∧ least ≤ n ∧ n < bound
  | .integer => ∀ cs, env.Holds v.name cs → ∃ n, Text.IsInteger cs n ∧ Text.InRange n
  | .address => ∀ cs, env.Holds v.name cs → ∃ a, Text.IsAddress cs a

/-- The fault names the variable, and shows what it is set to; a zero in any spelling is shown as
one digit. -/
inductive Reported (v : Variable) (env : Environment) : SettingsFault → Prop
  | missing (text : v.demand = .filled) : Reported v env (.missing v.name)
  | invalid {value : String} (other : v.demand ≠ .filled) (set : env.text? v.name = some value) :
      Reported v env (.invalid v.name value)
  | zero {cs : List Char} (other : v.demand ≠ .filled) (set : env.Holds v.name cs)
      (zero : Text.IsCount cs 0) : Reported v env (.invalid v.name "0")

end Variable

variable {env : Environment} {name : String}

theorem Environment.Holds.unique {cs ds : List Char} (first : env.Holds name cs)
    (second : env.Holds name ds) : cs = ds := by
  obtain ⟨value, set, rfl⟩ := first
  obtain ⟨value', set', rfl⟩ := second
  rw [Option.some.inj (set.symm.trans set')]

theorem Environment.not_holds (unset : env.text? name = none) (cs : List Char) :
    ¬ env.Holds name cs := by
  rintro ⟨value, set, -⟩
  rw [unset] at set
  cases set

/-- What reading a variable comes to: a value that it tells if it holds what it has to, and otherwise
a fault that reports it. -/
structure Checked (v : Variable) (env : Environment) (tells : α → Prop)
    (x : Except SettingsFault α) : Prop where
  ok : ∀ a, x = .ok a → v.Met env ∧ tells a
  error : ∀ fault, x = .error fault → ¬ v.Met env ∧ v.Reported env fault

theorem checked_required :
    Checked ⟨name, .filled⟩ env (env.text? name = some ·) (env.required name) := by
  unfold Environment.required
  cases set : env.text? name with
  | none =>
      refine ⟨nofun, fun fault failed => ?_⟩
      obtain rfl := Except.error.inj failed
      refine ⟨?_, .missing rfl⟩
      rintro ⟨cs, holds, -⟩
      exact env.not_holds set cs holds
  | some value =>
      by_cases blank : Text.trim value.toList = []
      · simp only [blank, if_true]
        refine ⟨nofun, fun fault failed => ?_⟩
        obtain rfl := Except.error.inj failed
        refine ⟨?_, .missing rfl⟩
        rintro ⟨cs, holds, some_⟩
        exact some_ (holds.unique ⟨value, set, blank⟩)
      · simp only [blank, if_false]
        refine ⟨fun a read => ?_, nofun⟩
        obtain rfl := Except.ok.inj read
        exact ⟨⟨_, ⟨value, set, rfl⟩, blank⟩, rfl⟩

/-- A reader that accepts just the texts of its values reads a variable that may hold these. -/
theorem checked_parsed {α : Type} {demand : Demand} {read : List Char → Option α}
    {reads : List Char → α → Prop} (other : demand ≠ .filled)
    (accepts : ∀ cs a, read cs = some a ↔ reads cs a)
    (met : (Variable.mk name demand).Met env ↔ ∀ cs, env.Holds name cs → ∃ a, reads cs a)
    (default : α) :
    Checked ⟨name, demand⟩ env (env.Tells name reads default) (env.parsed name read default) := by
  unfold Environment.parsed
  cases set : env.text? name with
  | none =>
      refine ⟨fun a read => ?_, nofun⟩
      obtain rfl := Except.ok.inj read
      exact ⟨met.mpr fun cs holds => absurd holds (env.not_holds set cs), .inl ⟨set, rfl⟩⟩
  | some value =>
      have holds : env.Holds name (Text.trim value.toList) := ⟨value, set, rfl⟩
      cases found : read (Text.trim value.toList) with
      | some a =>
          simp only [found]
          refine ⟨fun b read => ?_, nofun⟩
          obtain rfl := Except.ok.inj read
          have denotes := (accepts _ _).mp found
          refine ⟨met.mpr fun cs held => ?_, .inr ⟨_, holds, denotes⟩⟩
          rw [held.unique holds]
          exact ⟨a, denotes⟩
      | none =>
          simp only [found]
          refine ⟨nofun, fun fault failed => ?_⟩
          obtain rfl := Except.error.inj failed
          refine ⟨fun kept => ?_, .invalid other set⟩
          obtain ⟨a, denotes⟩ := met.mp kept _ holds
          rw [(accepts _ _).mpr denotes] at found
          cases found

theorem checked_integer (default : Int) :
    Checked ⟨name, .integer⟩ env
      (env.Tells name (fun cs n => Text.IsInteger cs n ∧ Text.InRange n) default)
      (env.integer name default) :=
  checked_parsed (by exact nofun) (fun _ _ => Text.int64?_eq_some_iff) Iff.rfl default

theorem checked_address (default : Address) :
    Checked ⟨name, .address⟩ env (env.Tells name Text.IsAddress default)
      (env.address name default) :=
  checked_parsed (by exact nofun) (fun _ _ => Address.ofText_eq_some_iff) Iff.rfl default

/-- Counts of a bounded type, which are told by their numbers. -/
theorem checked_parsed_count {α : Type} {bound : Nat} {ofNat : Nat → α} {toNat : α → Nat}
    (below : ∀ a, toNat a < bound) (number : ∀ n, n < bound → toNat (ofNat n) = n)
    (told : ∀ a, ofNat (toNat a) = a) (default : α) :
    Checked ⟨name, .count 0 bound⟩ env
      (env.Tells name (fun cs a => Text.IsCount cs (toNat a)) default)
      (env.parsed name (fun cs => (Text.natBelow? bound cs).map ofNat) default) := by
  have positive : 0 < bound := Nat.zero_lt_of_lt (below default)
  have accepts (cs : List Char) (a : α) :
      (Text.natBelow? bound cs).map ofNat = some a ↔ Text.IsCount cs (toNat a) := by
    rw [Option.map_eq_some_iff]
    constructor
    · rintro ⟨n, read, rfl⟩
      obtain ⟨count, small⟩ := (Text.natBelow?_eq_some_iff positive).mp read
      rwa [number n small]
    · intro count
      exact ⟨toNat a, (Text.natBelow?_eq_some_iff positive).mpr ⟨count, below a⟩, told a⟩
  have denoted (cs : List Char) :
      (∃ n, Text.IsCount cs n ∧ 0 ≤ n ∧ n < bound) ↔ ∃ a, Text.IsCount cs (toNat a) := by
    constructor
    · rintro ⟨n, count, -, small⟩
      exact ⟨ofNat n, by rwa [number n small]⟩
    · rintro ⟨a, count⟩
      exact ⟨toNat a, count, Nat.zero_le _, below a⟩
  have met : (Variable.mk name (.count 0 bound)).Met env ↔
      ∀ cs, env.Holds name cs → ∃ a, Text.IsCount cs (toNat a) :=
    forall₂_congr fun cs _ => denoted cs
  exact checked_parsed (by exact nofun) accepts met default

theorem checked_count (default : UInt64) :
    Checked ⟨name, .count 0 (twoTo 64)⟩ env
      (env.Tells name (fun cs n => Text.IsCount cs n.toNat) default) (env.count name default) :=
  checked_parsed_count UInt64.toNat_lt (fun _ => UInt64.toNat_ofNat_of_lt')
    (fun _ => UInt64.ofNat_toNat) default

theorem checked_count32 (default : UInt32) :
    Checked ⟨name, .count 0 (twoTo 32)⟩ env
      (env.Tells name (fun cs n => Text.IsCount cs n.toNat) default)
      (env.parsed name (fun cs => (Text.natBelow? (twoTo 32) cs).map UInt32.ofNat) default) :=
  checked_parsed_count UInt32.toNat_lt (fun _ => UInt32.toNat_ofNat_of_lt')
    (fun _ => UInt32.ofNat_toNat) default

theorem checked_count16 (default : UInt16) :
    Checked ⟨name, .count 0 (twoTo 16)⟩ env
      (env.Tells name (fun cs n => Text.IsCount cs n.toNat) default)
      (env.parsed name (fun cs => (Text.natBelow? (twoTo 16) cs).map UInt16.ofNat) default) :=
  checked_parsed_count UInt16.toNat_lt (fun _ => UInt16.toNat_ofNat_of_lt')
    (fun _ => UInt16.ofNat_toNat) default

end VaultTransfers
