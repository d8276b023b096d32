import VaultTransfers.Proofs.Codec.Listing
import VaultTransfers.Transfer.Message

/-!
Payloads and their JSON. The members of an object come back in the order of
their names, whatever order they were written in; a payload is read from them
under its own kind.
-/

namespace VaultTransfers

namespace Payload

theorem deposit_toJson (p : Deposit) :
    p.toJson = .obj
      [("deposit_amount", .str p.depositAmount), ("deposit_asset", .str p.depositAsset),
       ("deposit_timestamp", .str p.depositTimestamp), ("nonce", .str p.nonce),
       ("receiver", .str p.receiver), ("share_amount", .str p.shareAmount),
       ("share_lock_period_at_time_of_deposit", .str p.shareLockPeriod)] := by
  simp only [Deposit.toJson, Json.ofMembers, Json.insertMember, List.foldl_cons, List.foldl_nil,
    String.reduceLT, String.reduceEq, if_true, if_false]

theorem request_toJson (p : WithdrawalRequest) :
    p.toJson = .obj
      [("amount", .str p.amount), ("deadline", .str p.deadline), ("min_price", .str p.minPrice),
       ("offer_token", .str p.offerToken), ("timestamp", .str p.timestamp), ("user", .str p.user),
       ("want_token", .str p.wantToken)] := by
  simp only [WithdrawalRequest.toJson, Json.ofMembers, Json.insertMember, List.foldl_cons, List.foldl_nil,
    String.reduceLT, String.reduceEq, if_true, if_false]

theorem fulfilment_toJson (p : Fulfilment) :
    p.toJson = .obj
      [("offer_amount_spent", .str p.offerAmountSpent), ("offer_token", .str p.offerToken),
       ("timestamp", .str p.timestamp), ("user", .str p.user),
       ("want_amount_received", .str p.wantAmountReceived), ("want_token", .str p.wantToken)] := by
  simp only [Fulfilment.toJson, Json.ofMembers, Json.insertMember, List.foldl_cons, List.foldl_nil,
    String.reduceLT, String.reduceEq, if_true, if_false]

def texts : Payload → List (String × String)
  | deposit p =>
    [("deposit_amount", p.depositAmount), ("deposit_asset", p.depositAsset),
     ("deposit_timestamp", p.depositTimestamp), ("nonce", p.nonce), ("receiver", p.receiver),
     ("share_amount", p.shareAmount), ("share_lock_period_at_time_of_deposit", p.shareLockPeriod)]
  | withdrawalRequested p =>
    [("amount", p.amount), ("deadline", p.deadline), ("min_price", p.minPrice),
     ("offer_token", p.offerToken), ("timestamp", p.timestamp), ("user", p.user),
     ("want_token", p.wantToken)]
  | withdrawalCompleted p =>
    [("offer_amount_spent", p.offerAmountSpent), ("offer_token", p.offerToken),
     ("timestamp", p.timestamp), ("user", p.user), ("want_amount_received", p.wantAmountReceived),
     ("want_token", p.wantToken)]

theorem toJson_eq_texts (p : Payload) : p.toJson = .obj (p.texts.map Json.textMember) := by
  cases p with
  | deposit fields => exact deposit_toJson fields
  | withdrawalRequested fields => exact request_toJson fields
  | withdrawalCompleted fields => exact fulfilment_toJson fields

/-! Payloads from members in any order and among others. -/

section

variable {texts : List (String × String)} (distinct : (texts.map (·.1)).Nodup)

/-- The text of a name, where there is one. -/
def textOf (texts : List (String × String)) (name : String) : String :=
  (texts.lookup name).getD ""

include distinct in
theorem textOf_of_mem {t : String × String} (member : t ∈ texts) : textOf texts t.1 = t.2 := by
  obtain ⟨front, behind, rfl⟩ := List.append_of_mem member
  have found : (front ++ t :: behind).lookup t.1 = some t.2 := by
    refine List.lookup_eq_some_iff.mpr ⟨front, behind, rfl, fun u among => ?_⟩
    rw [List.map_append, List.map_cons] at distinct
    have apart := (List.nodup_append.mp distinct).2.2 u.1 (List.mem_map_of_mem among) t.1
      List.mem_cons_self
    exact bne_iff_ne.mpr (Ne.symm apart)
  rw [textOf, found, Option.getD_some]

theorem field?_textLayout {title n : String} {names : List String} (member : n ∈ names) :
    (Json.textLayout title names).field? n = some n := by
  cases found : (Json.textLayout title names).field? n with
  | none =>
      have missed := List.find?_eq_none.mp found n member
      exact absurd (decide_eq_true rfl) missed
  | some f => exact congrArg some (Json.Layout.name_of_field? _ found)

include distinct in
theorem decoded_of_agrees {α : Type} {title : String} {names : List String}
    {gathered : List (String × Json)} (same : (texts.map (·.1)).Perm names)
    (agrees : Json.Agrees texts gathered) (complete : ∀ t ∈ texts, Json.textMember t ∈ gathered)
    (finish : (Json.textLayout title names).Draft → Except Json.ShapeFault α) :
    ∃ d : (Json.textLayout title names).Draft, (∀ t ∈ texts, d t.1 = some t.2) ∧
      (Json.textLayout title names).decodeRecord text finish (.obj gathered) = finish d := by
  have decodes : ∀ m ∈ gathered, ∀ f : String, (Json.textLayout title names).field? m.1 = some f →
      text f m.2 = .ok (textOf texts f) := by
    intro m member f found
    obtain rfl : f = m.1 := Json.Layout.name_of_field? _ found
    have known : m.1 ∈ names := List.mem_of_find?_eq_some found
    obtain ⟨t, listed, rfl⟩ := List.mem_map.mp (agrees m member (same.mem_iff.mpr known))
    exact congrArg Except.ok (textOf_of_mem distinct listed).symm
  obtain ⟨d, drafted, found⟩ := Json.Layout.ofMembers_of_values _ decodes
    (Json.textLayout title names).blank
  refine ⟨d, fun t member => ?_, congrArg (fun x : Except Json.ShapeFault _ => x.bind finish) drafted⟩
  have known : t.1 ∈ names := same.mem_iff.mp (List.mem_map_of_mem member)
  have here := found t.1 (.inr ⟨Json.textMember t, complete t member, field?_textLayout known⟩)
  rwa [textOf_of_mem distinct member] at here

end

theorem texts_sorted (p : Payload) : (p.texts.map (·.1)).Pairwise (· < ·) := by
  cases p with
  | deposit fields =>
      simp only [texts, List.map_cons, List.map_nil]
      decide
  | withdrawalRequested fields =>
      simp only [texts, List.map_cons, List.map_nil]
      decide
  | withdrawalCompleted fields =>
      simp only [texts, List.map_cons, List.map_nil]
      decide

theorem texts_distinct (p : Payload) : (p.texts.map (·.1)).Nodup :=
  p.texts_sorted.imp fun lt => String.ne_of_lt lt

theorem ofJson_of_agrees (p : Payload) {gathered : List (String × Json)}
    (agrees : Json.Agrees p.texts gathered)
    (complete : ∀ t ∈ p.texts, Json.textMember t ∈ gathered) :
    ofJson p.kind (.obj gathered) = .ok p := by
  have distinct := p.texts_distinct
  cases p with
  | deposit fields =>
      have names : ((texts (deposit fields)).map (·.1)).Perm Deposit.layout.all :=
        List.isPerm_iff.mp rfl
      obtain ⟨d, found, decoded⟩ := decoded_of_agrees distinct names agrees complete Deposit.ofDraft
      simp only [texts, List.forall_mem_cons] at found
      have finished : Deposit.ofDraft d = .ok fields := by
        simp only [Deposit.ofDraft, Json.Layout.require, found, bind, Except.bind]
      exact congrArg (Except.map deposit) (decoded.trans finished)
  | withdrawalRequested fields =>
      have names : ((texts (withdrawalRequested fields)).map (·.1)).Perm WithdrawalRequest.layout.all :=
        List.isPerm_iff.mp rfl
      obtain ⟨d, found, decoded⟩ := decoded_of_agrees distinct names agrees complete WithdrawalRequest.ofDraft
      simp only [texts, List.forall_mem_cons] at found
      have finished : WithdrawalRequest.ofDraft d = .ok fields := by
        simp only [WithdrawalRequest.ofDraft, Json.Layout.require, found, bind, Except.bind]
      exact congrArg (Except.map withdrawalRequested) (decoded.trans finished)
  | withdrawalCompleted fields =>
      have names : ((texts (withdrawalCompleted fields)).map (·.1)).Perm Fulfilment.layout.all :=
        List.isPerm_iff.mp rfl
      obtain ⟨d, found, decoded⟩ := decoded_of_agrees distinct names agrees complete Fulfilment.ofDraft
      simp only [texts, List.forall_mem_cons] at found
      have finished : Fulfilment.ofDraft d = .ok fields := by
        simp only [Fulfilment.ofDraft, Json.Layout.require, found, bind, Except.bind]
      exact congrArg (Except.map withdrawalCompleted) (decoded.trans finished)

theorem ofJson_toJson (p : Payload) : ofJson p.kind p.toJson = .ok p := by
  rw [toJson_eq_texts]
  exact ofJson_of_agrees p (fun m member _ => member) fun t member => List.mem_map_of_mem member

/-- The text is an object of the payload's texts under their names, in any order and among other
members, whose values nest at most `depth` deep. -/
def Encodes (p : Payload) (depth : Nat) (text : List Char) : Prop :=
  ∃ entries listed, Json.IsObject entries text ∧
    Json.Lists p.texts (·.1) (fun t => Json.Spells t.2) (Json.Valid depth) entries listed ∧
    listed.Perm p.texts

theorem takes_of_encodes {p : Payload} {depth : Nat} {text : List Char}
    (encodes : p.Encodes depth text) :
    ∃ j, Json.Takes (Json.value (depth + 1)) text j ∧ ofJson p.kind j = .ok p := by
  obtain ⟨entries, listed, ⟨gap, blanks, pre, post, front, back, rfl⟩, lists, perm⟩ := encodes
  obtain ⟨gathered, gathers, agrees, complete⟩ :=
    Json.gathers_of_texts lists p.texts_distinct [] nofun
  refine ⟨.obj gathered, ⟨post, back, by simp; omega, fun s rest _ => ?_⟩, ?_⟩
  · rw [Json.before_append, Json.value_blanks front, Json.before_append]
    exact Json.value_objectText gathers blanks (Json.before post (s :: rest))
  · exact ofJson_of_agrees p agrees fun t member =>
      complete t member (.inl (perm.mem_iff.mpr member))

theorem encodes_render (p : Payload) (depth : Nat) : p.Encodes depth p.toJson.render := by
  refine ⟨p.texts.map fun t => Json.written (t.1, Json.renderString t.2), p.texts, ?_, ?_, .refl _⟩
  · refine ⟨[], .nil, ?_⟩
    rw [toJson_eq_texts, Json.render, Json.renderMembers_textMembers, Json.renderObject_eq,
      List.map_map]
    exact .self _
  · exact Json.lists_written (fun t : String × String => Json.spells_renderString t.2)
      fun _ member => member

theorem value_render (depth : Nat) (p : Payload) (rest : Json.Input) :
    Json.value (depth + 1) (Json.before p.toJson.render rest) = .ok (p.toJson, rest) := by
  rw [toJson_eq_texts]
  exact Json.value_textObject depth p.texts p.texts_sorted rest

end Payload

theorem Message.payload_ofEvent (e : VaultEvent) (t : Instant) :
    (Message.ofEvent e t).payload = .ok e.payload :=
  Payload.ofJson_toJson e.payload

end VaultTransfers
