import Mathlib.Data.List.Induction
import Mathlib.Data.List.TakeWhile
import VaultTransfers.Http.Api
import VaultTransfers.Proofs.Codec.Text
import VaultTransfers.Proofs.Program.Runs

/-!
The interface to users over stores in memory. What people type stands for the
number that its digits spell, in any letter case. A request that registers a
wallet adds it to the watch list; no other request changes anything. An order is
looked up by a hash in any spelling.
-/

namespace VaultTransfers

namespace Text

/-- The text is `0x` and so many hexadecimal digits of either case, which denote the number; there
may be blanks around it. -/
def Spells (text : List Char) (width n : Nat) : Prop :=
  ∃ digits, trim text = '0' :: 'x' :: digits ∧ digits.length = width ∧
    (∀ c ∈ digits, isHexDigit c = true) ∧ hexNumber digits = n

theorem Spells.unique {text : List Char} {width m n : Nat} (first : Spells text width m)
    (second : Spells text width n) : m = n := by
  obtain ⟨digits, spelled, -, -, rfl⟩ := first
  obtain ⟨digits', spelled', -, -, rfl⟩ := second
  rw [(List.cons.inj (List.cons.inj (spelled.symm.trans spelled')).2).2]

theorem range_of_hexValue? {c : Char} {v : Nat} (value : hexValue? c = some v) :
    v < 16 ∧ 48 ≤ c.toNat ∧ c.toNat ≤ 102 := by
  have ordered (d e : Char) : d ≤ e ↔ d.toNat ≤ e.toNat := UInt32.le_iff_toNat_le
  simp only [hexValue?, ordered, Char.reduceToNat] at value
  split at value
  · have := Option.some.inj value
    omega
  · split at value
    · have := Option.some.inj value
      omega
    · split at value
      · have := Option.some.inj value
        omega
      · cases value

theorem hexNumber_lt (digits : List Char) : hexNumber digits < Nat.pow 16 digits.length := by
  induction digits using List.reverseRecOn with
  | nil => decide
  | append_singleton digits c ih =>
      have digit : (hexValue? c).getD 0 < 16 := by
        cases value : hexValue? c with
        | none => decide
        | some v => exact (range_of_hexValue? value).1
      have power : Nat.pow 16 (digits.length + 1) = Nat.pow 16 digits.length * 16 := rfl
      rw [hexNumber_append, List.length_append, List.length_singleton, power]
      omega

theorem isBlank_of_isHexDigit {c : Char} (hex : isHexDigit c = true) : isBlank c = false := by
  obtain ⟨v, value⟩ := Option.isSome_iff_exists.mp hex
  have range := range_of_hexValue? value
  simp [isBlank, blankRanges]
  omega

theorem ne_of_isHexDigit {c d : Char} (hex : isHexDigit c = true) (other : isHexDigit d = false) :
    c ≠ d := by
  rintro rfl
  rw [hex] at other
  cases other

theorem ofUtf8?_utf8 (cs : List Char) : ofUtf8? (utf8 cs) = some cs := by
  rw [ofUtf8?, symbols_utf8]
  induction cs with
  | nil => rfl
  | cons c cs ih =>
      rw [List.map_cons, List.mapM_cons, ih]
      rfl

theorem trim_marked {digits : List Char} (hex : ∀ c ∈ digits, isHexDigit c = true) :
    trim ('0' :: 'x' :: digits) = '0' :: 'x' :: digits := by
  refine trim_eq_self fun c member => ?_
  rcases List.mem_cons.mp member with rfl | member
  · decide
  · rcases List.mem_cons.mp member with rfl | member
    · decide
    · exact isBlank_of_isHexDigit (hex c member)

/-- Digits behind a mark spell the number that they denote. -/
theorem spells_marked {digits : List Char} (hex : ∀ c ∈ digits, isHexDigit c = true) :
    Spells ('0' :: 'x' :: digits) digits.length (hexNumber digits) :=
  ⟨digits, trim_marked hex, rfl, hex, rfl⟩

end Text

namespace Validation

theorem markedDigits?_eq_some_iff {count : Nat} {cs digits : List Char} :
    markedDigits? count cs = some digits ↔
      cs = '0' :: 'x' :: digits ∧ digits.length = count ∧
        ∀ c ∈ digits, Text.isHexDigit c = true := by
  constructor
  · intro marked
    unfold markedDigits? at marked
    split at marked
    · split at marked
      · rename_i fits
        obtain rfl := Option.some.inj marked
        exact ⟨rfl, fits.1, List.all_eq_true.mp fits.2⟩
      · cases marked
    · cases marked
  · rintro ⟨rfl, length, hex⟩
    exact if_pos ⟨length, List.all_eq_true.mpr hex⟩

theorem marked_of_spells {text : List Char} {width n : Nat} (spells : Text.Spells text width n) :
    ∃ digits, Text.trim text ≠ [] ∧ markedDigits? width (Text.trim text) = some digits ∧
      Text.hexNumber digits = n := by
  obtain ⟨digits, spelled, length, hex, number⟩ := spells
  refine ⟨digits, ?_, markedDigits?_eq_some_iff.mpr ⟨spelled, length, hex⟩, number⟩
  rw [spelled]
  exact List.cons_ne_nil _ _

theorem spells_of_marked {text digits : List Char} {width : Nat}
    (marked : markedDigits? width (Text.trim text) = some digits) :
    Text.Spells text width (Text.hexNumber digits) ∧
      Text.hexNumber digits < Nat.pow 16 width := by
  obtain ⟨spelled, rfl, hex⟩ := markedDigits?_eq_some_iff.mp marked
  exact ⟨⟨digits, spelled, rfl, hex, rfl⟩, Text.hexNumber_lt digits⟩

theorem wallet_of_spells {text : String} {a : Address}
    (spells : Text.Spells text.toList 40 a.bits.toNat) : wallet text = .ok a.checksummed := by
  obtain ⟨digits, filled, marked, number⟩ := marked_of_spells spells
  have same : Address.ofNat (Text.hexNumber digits) = a := by
    rw [number, Address.ofNat, BitVec.ofNat_toNat, BitVec.setWidth_eq]
  simp only [wallet, filled, if_false, marked, same]

/-- What is accepted as a wallet spells an address. -/
theorem spells_of_wallet {text w : String} (read : wallet text = .ok w) :
    ∃ a : Address, Text.Spells text.toList 40 a.bits.toNat ∧ w = a.checksummed := by
  simp only [wallet] at read
  split at read
  · cases read
  · split at read
    · rename_i digits marked
      obtain ⟨spells, bound⟩ := spells_of_marked marked
      refine ⟨Address.ofNat (Text.hexNumber digits), ?_, (Except.ok.inj read).symm⟩
      rwa [Address.ofNat, BitVec.toNat_ofNat, Nat.mod_eq_of_lt bound]
    · cases read

theorem txHash_of_spells {text : String} {h : Word} (spells : Text.Spells text.toList 64 h.toNat) :
    txHash text = .ok h.text := by
  obtain ⟨digits, filled, marked, number⟩ := marked_of_spells spells
  have same : Word.ofNat (Text.hexNumber digits) = h := by
    rw [number, Word.ofNat, Word.toNat, BitVec.ofNat_toNat, BitVec.setWidth_eq]
  simp only [txHash, filled, if_false, marked, same]

theorem chainId_eq_ok_iff {n m : Int} : chainId n = .ok m ↔ 0 < n ∧ m = n := by
  unfold chainId
  split
  · rename_i positive
    simp [positive, eq_comm]
  · rename_i negative
    simp [negative]

end Validation

namespace Http

/-- The stores behind the interface. -/
structure Stores where
  watchList : WatchList
  orders : OrderTable

namespace Stores

/-- The stores kept in memory. -/
def answer : (c : Call) → StateM Stores (interface.Reply c)
  | .watchList c => fun s =>
    let (reply, watchList) := WatchList.answer c s.watchList
    (reply, { s with watchList })
  | .orders c => fun s =>
    let (reply, orders) := OrderTable.answer c s.orders
    (reply, { s with orders })

end Stores

def serve (defaultChain : Int) (r : Request) : StateM Stores Response :=
  (answer defaultChain r).interpret Stores.answer

/-- The response to a registration that is accepted. -/
def registered (w : Watched) (created : Bool) : Response :=
  .data (if created then 201 else 200) (.ofMembers
    [("wallet_address", .str w.wallet), ("chain_id", .ofInt w.chainId), ("created", .bool created)])

/-- The response to a request that looks an order up. -/
def lookedUp : Option Order → Response
  | some o => .data 200 o.toJson
  | none => Refusal.orderNotFound.response

/-- The request posts a registration. -/
def Request.Posts (r : Request) (registration : Registration) : Prop :=
  r.method = "POST" ∧ Route.ofPath? (pathOf r.target) = some .addresses ∧
    registrationOf r = .ok registration

/-- The request registers an address on a chain: it spells the address, and it gives the chain or
means the configured one; chains are positive. -/
def Request.Registers (r : Request) (defaultChain : Int) (a : Address) (chain : Int) : Prop :=
  ∃ registration, r.Posts registration ∧
    Text.Spells registration.wallet.toList 40 a.bits.toNat ∧
    registration.chainId.getD defaultChain = chain ∧ 0 < chain

/-- The request looks an order up by a hash, in whatever spelling. -/
def Request.AsksFor (r : Request) (h : Word) : Prop :=
  r.method = "GET" ∧ ∃ part text, Route.ofPath? (pathOf r.target) = some (.order part) ∧
    Text.ofUtf8? (percentDecoded part) = some text ∧ Text.Spells text 64 h.toNat

section

variable {defaultChain : Int} {r : Request} {s : Stores}

theorem serve_eq_of_posts {registration : Registration} (posts : r.Posts registration) :
    serve defaultChain r s =
      (respond (register defaultChain registration)).interpret Stores.answer s := by
  obtain ⟨method, path, body⟩ := posts
  simp only [serve, answer, path, Route.answer?, method, if_true, body]

theorem serve_of_registers {a : Address} {chain : Int}
    (registers : r.Registers defaultChain a chain) :
    serve defaultChain r s =
      (registered ⟨a.checksummed, chain⟩ !s.watchList.contains ⟨a.checksummed, chain⟩,
        { s with watchList := s.watchList.register ⟨a.checksummed, chain⟩ }) := by
  obtain ⟨registration, posts, spells, rfl, positive⟩ := registers
  have wallet := Validation.wallet_of_spells spells
  have chain := Validation.chainId_eq_ok_iff.mpr ⟨positive, rfl⟩
  rw [serve_eq_of_posts posts, register, wallet, chain]
  rfl

theorem status_ofValidation (fault : Validation.Fault) :
    (Refusal.ofValidation fault).response.status = 400 := by
  cases fault <;> rfl

/-- A registration that does not register anything is refused for what it says. -/
theorem serve_of_posts {registration : Registration} (posts : r.Posts registration)
    (none_ : ∀ a chain, ¬ r.Registers defaultChain a chain) :
    ∃ fault : Validation.Fault,
      serve defaultChain r s = ((Refusal.ofValidation fault).response, s) := by
  rw [serve_eq_of_posts posts, register]
  cases wallet : Validation.wallet registration.wallet with
  | error fault => exact ⟨fault, rfl⟩
  | ok w =>
      cases chain : Validation.chainId (registration.chainId.getD defaultChain) with
      | error fault => exact ⟨fault, rfl⟩
      | ok n =>
          obtain ⟨a, spells, -⟩ := Validation.spells_of_wallet wallet
          obtain ⟨positive, rfl⟩ := Validation.chainId_eq_ok_iff.mp chain
          exact absurd ⟨registration, posts, spells, rfl, positive⟩ (none_ a _)

theorem status_of_registrationOf {response : Response} (read : registrationOf r = .error response) :
    response.status ∈ [400, 415, 422] := by
  unfold registrationOf at read
  split at read
  · rw [← Except.error.inj read]
    decide
  · split at read
    · cases read
    · rw [← Except.error.inj read]
      decide
    · rw [← Except.error.inj read]
      decide

theorem registrationOf_eq_ok {registration : Registration} (json : r.isJson = true)
    (read : Registration.ofBytes r.body = .ok registration) :
    registrationOf r = .ok registration := by
  rw [registrationOf, json, read]
  rfl

/-- A request for a registration that registers nothing is refused. -/
theorem status_serve_of_not_registers (post : r.method = "POST")
    (path : Route.ofPath? (pathOf r.target) = some .addresses)
    (none_ : ∀ a chain, ¬ r.Registers defaultChain a chain) :
    (serve defaultChain r s).1.status ∈ [400, 415, 422] := by
  cases read : registrationOf r with
  | error response =>
      simp only [serve, answer, path, Route.answer?, post, if_true, read]
      exact status_of_registrationOf read
  | ok registration =>
      obtain ⟨fault, served⟩ := serve_of_posts (s := s) ⟨post, path, read⟩ none_
      rw [served, status_ofValidation]
      decide

theorem interpret_ask_bind (c : Call) (next : Reply c → Task Response) :
    (respond (liftM (ask c) >>= next)).interpret Stores.answer s =
      (respond (next (Stores.answer c s).1)).interpret Stores.answer (Stores.answer c s).2 := rfl

theorem interpret_findOrder {text h : String} (hash : Validation.txHash text = .ok h) :
    (respond (findOrder text)).interpret Stores.answer s =
      (lookedUp (s.orders.byTransaction h), s) := by
  have asked : (Stores.answer (.orders (.byTransaction h)) s) =
      (.ok (s.orders.byTransaction h), s) := rfl
  rw [findOrder, hash]
  refine (interpret_ask_bind (.orders (.byTransaction h)) _).trans ?_
  rw [asked]
  cases s.orders.byTransaction h with
  | none => rfl
  | some o => rfl

theorem snd_interpret_answerOrder (part : List Char) :
    ((answerOrder part).interpret Stores.answer s).2 = s := by
  unfold answerOrder
  cases Text.ofUtf8? (percentDecoded part) with
  | none => rfl
  | some text =>
      cases hash : Validation.txHash (String.ofList text) with
      | error fault =>
          simp only [findOrder, hash]
          rfl
      | ok h =>
          simp only [interpret_findOrder hash]

theorem serve_of_asksFor {h : Word} (asks : r.AsksFor h) :
    serve defaultChain r s = (lookedUp (s.orders.byTransaction h.text), s) := by
  obtain ⟨method, part, text, path, decoded, spells⟩ := asks
  have hash : Validation.txHash (String.ofList text) = .ok h.text :=
    Validation.txHash_of_spells (by rwa [String.toList_ofList])
  simp only [serve, answer, path, Route.answer?, method, if_true, answerOrder, decoded]
  exact interpret_findOrder hash

/-- Only a registration changes a store. -/
theorem snd_serve_of_not_registers (none_ : ∀ a chain, ¬ r.Registers defaultChain a chain) :
    (serve defaultChain r s).2 = s := by
  unfold serve answer
  cases path : Route.ofPath? (pathOf r.target) with
  | none => rfl
  | some route =>
      cases route with
      | order part =>
          by_cases get : r.method = "GET"
          · simp only [Route.answer?, get, if_true, snd_interpret_answerOrder]
          · by_cases head : r.method = "HEAD"
            · simp only [Route.answer?, head, String.reduceEq, if_false, if_true]
              have split : (answerOrder part >>= fun response => pure response.headOnly).interpret
                  Stores.answer s = _ := Program.interpret_bind_run _ _ s
              exact (congrArg Prod.snd split).trans (snd_interpret_answerOrder part)
            · simp only [Route.answer?, get, head, if_false]
              rfl
      | addresses =>
          by_cases post : r.method = "POST"
          · cases read : registrationOf r with
            | error response =>
                simp only [Route.answer?, post, if_true, read]
                rfl
            | ok registration =>
                obtain ⟨fault, served⟩ := serve_of_posts (s := s) ⟨post, path, read⟩ none_
                simp only [serve, answer, path] at served
                rw [served]
          · simp only [Route.answer?, post, if_false]
            rfl

end

theorem percentDecoded_eq_utf8 {cs : List Char} (plain : '%' ∉ cs) :
    percentDecoded cs = Text.utf8 cs := by
  induction cs using percentDecoded.induct with
  | case1 => rfl
  | case2 c => simp [percentDecoded, Text.utf8]
  | case3 c d => simp [percentDecoded, Text.utf8]
  | case4 c a b cs escaped ih => exact absurd (by simp [escaped.1]) plain
  | case5 c a b cs unescaped ih =>
      rw [percentDecoded, if_neg unescaped, ih fun later => plain (List.mem_cons_of_mem c later)]
      rfl

theorem segments_append {cs : List Char} (plain : '/' ∉ cs) (ds : List Char) :
    segments (cs ++ '/' :: ds) = cs :: segments ds := by
  induction cs with
  | nil => rfl
  | cons c cs ih =>
      rw [List.mem_cons, not_or] at plain
      rw [List.cons_append, segments, if_neg (Ne.symm plain.1), ih plain.2]

theorem segments_eq_singleton {cs : List Char} (plain : '/' ∉ cs) : segments cs = [cs] := by
  induction cs with
  | nil => rfl
  | cons c cs ih =>
      rw [List.mem_cons, not_or] at plain
      rw [segments, if_neg (Ne.symm plain.1), ih plain.2]

/-- The request for the order of a hash, written as digits behind a mark. -/
def lookUp (digits : List Char) (headers : List (String × String)) (body : List UInt8) : Request :=
  ⟨"GET", "/api/orders/0x" ++ String.ofList digits, headers, body⟩

/-- The digits may be in any letter case. -/
theorem asksFor_lookUp {digits : List Char} {h : Word}
    (headers : List (String × String)) (body : List UInt8) (length : digits.length = 64)
    (hex : ∀ c ∈ digits, Text.isHexDigit c = true) (number : Text.hexNumber digits = h.toNat) :
    (lookUp digits headers body).AsksFor h := by
  have marked (d : Char) (other : Text.isHexDigit d = false) (noMark : d ≠ 'x') :
      d ∉ '0' :: 'x' :: digits := by
    intro member
    rcases List.mem_cons.mp member with rfl | member
    · cases other
    · rcases List.mem_cons.mp member with rfl | member
      · exact noMark rfl
      · exact Text.ne_of_isHexDigit (hex d member) other rfl
  have path : pathOf (lookUp digits headers body).target =
      "/api/orders/".toList ++ '0' :: 'x' :: digits := by
    have target : (lookUp digits headers body).target.toList =
        "/api/orders/".toList ++ '0' :: 'x' :: digits := by
      simp [lookUp]
    rw [pathOf, target, List.takeWhile_eq_self_iff]
    intro c member
    have query : c ≠ '?' := by
      rintro rfl
      exact marked '?' (by decide) (by decide) (by simpa using member)
    have fragment : c ≠ '#' := by
      rintro rfl
      exact marked '#' (by decide) (by decide) (by simpa using member)
    simp [query, fragment]
  have parts : segments ("/api/orders/".toList ++ '0' :: 'x' :: digits) =
      ["".toList, "api".toList, "orders".toList, '0' :: 'x' :: digits] := by
    have slashes : "/api/orders/".toList ++ '0' :: 'x' :: digits =
        "".toList ++ '/' :: ("api".toList ++ '/' ::
          ("orders".toList ++ '/' :: '0' :: 'x' :: digits)) := rfl
    rw [slashes, segments_append (by decide), segments_append (by decide),
      segments_append (by decide), segments_eq_singleton (marked '/' (by decide) (by decide))]
  refine ⟨rfl, '0' :: 'x' :: digits, '0' :: 'x' :: digits, ?_, ?_, ?_⟩
  · rw [Route.ofPath?, path, parts]
    simp
  · rw [percentDecoded_eq_utf8 (marked '%' (by decide) (by decide)), Text.ofUtf8?_utf8]
  · rw [← number, ← length]
    exact Text.spells_marked hex

end Http

end VaultTransfers
