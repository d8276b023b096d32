import Mathlib.Data.List.Nodup
import VaultTransfers.Proofs.Codec.Object
import VaultTransfers.Proofs.Codec.Skipping

/-!
Entries that list the fields of a record, in any order and among others that the
record does not know. A record is read from them if each field is listed; and from
no object at all is a record read that is named a field twice, or that lacks one.
-/

namespace VaultTransfers.Json

/-- The text is a value by itself, whose lists and objects nest at most `depth` deep. -/
def Valid (depth : Nat) (text : List Char) : Prop :=
  ∃ v, whole (value depth) (text.map some) = .ok v

theorem isSome_iff_valid (depth : Nat) (text : List Char) :
    (whole (value depth) (text.map some)).toOption.isSome = true ↔ Valid depth text := by
  rw [Valid]
  cases whole (value depth) (text.map some) with
  | error fault => simp [Except.toOption]
  | ok v => simp [Except.toOption]

instance (depth : Nat) (text : List Char) : Decidable (Valid depth text) :=
  decidable_of_iff _ (isSome_iff_valid depth text)

section

variable {depth : Nat} {text : List Char}

theorem Valid.takes (valid : Valid depth text) : ∃ v, Takes (value depth) text v := by
  obtain ⟨v, read⟩ := valid
  obtain ⟨behind, read, spaced⟩ := whole_eq_ok_iff.mp read
  obtain ⟨gap, blanks, rfl⟩ := blanks_of_skipSpace spaced
  have shorter := skipWithin_length (skipValue_of_passed (value_passed depth) read)
  rw [length_before, List.length_map] at shorter
  refine ⟨v, gap, blanks, Nat.le_of_lt shorter, fun s rest stop => ?_⟩
  have read := value_local depth read (s :: rest) (.cons stop.endsNumber rest)
  rwa [before, List.append_nil] at read

theorem Valid.skips (valid : Valid depth text) : Skips text := by
  obtain ⟨v, gap, blanks, short, read⟩ := valid.takes
  exact ⟨gap, blanks, short, fun s rest stop => skipValue_of_passed (value_passed depth) (read s rest stop)⟩

end

/-- Entries that hold the listed fields, each behind its name, and between them others with names that
are not known. -/
inductive Lists {F : Type} (known : List F) (name : F → String) (holds : F → List Char → Prop)
    (other : List Char → Prop) : List Entry → List F → Prop
  | nil : Lists known name holds other [] []
  | field {f : F} {e : Entry} {entries : List Entry} {listed : List F} (isKnown : f ∈ known)
      (named : Spells (name f) e.name) (held : holds f e.value)
      (lists : Lists known name holds other entries listed) :
      Lists known name holds other (e :: entries) (f :: listed)
  | other {n : String} {e : Entry} {entries : List Entry} {listed : List F}
      (named : Spells n e.name) (unknown : n ∉ known.map name) (valid : other e.value)
      (lists : Lists known name holds other entries listed) :
      Lists known name holds other (e :: entries) listed

/-- The entry has the name, and a value that can be passed over. -/
def Entry.Names (e : Entry) (name : String) : Prop :=
  Spells name e.name ∧ Skips e.value

theorem lists_written {F : Type} {known : List F} {name : F → String} {holds : F → List Char → Prop}
    {other : List Char → Prop} {text : F → List Char} (held : ∀ f, holds f (text f)) {fields : List F}
    (isKnown : ∀ f ∈ fields, f ∈ known) :
    Lists known name holds other (fields.map fun f => written (name f, text f)) fields := by
  induction fields with
  | nil => exact .nil
  | cons f fields ih =>
      exact .field (isKnown f List.mem_cons_self) (spells_renderString (name f)) (held f)
        (ih fun g member => isKnown g (List.mem_cons_of_mem f member))

namespace Layout

variable (L : Layout)

theorem field?_of_unknown {n : String} (unknown : n ∉ L.all.map L.name) : L.field? n = none := by
  refine List.find?_eq_none.mpr fun f member same => unknown ?_
  exact List.mem_map.mpr ⟨f, member, of_decide_eq_true same⟩

theorem name_of_field? {n : String} {f : L.Field} (found : L.field? n = some f) : L.name f = n := by
  have holds := List.find?_some found
  exact of_decide_eq_true holds

/-- Each field that is listed is read, and the rest of the draft stays as it was. -/
theorem gathers_of_lists {read : (f : L.Field) → Reader (L.Value f)}
    {holds : L.Field → List Char → Prop} {other : List Char → Prop}
    {right : (f : L.Field) → L.Value f → Prop} {entries : List Entry} {listed : List L.Field}
    (lists : Lists L.all L.name holds other entries listed)
    (named : ∀ f ∈ L.all, L.field? (L.name f) = some f)
    (takes : ∀ f text, holds f text → ∃ v, Takes (read f) text v ∧ right f v)
    (skips : ∀ text, other text → Skips text) (d : L.Draft) (distinct : listed.Nodup)
    (unread : ∀ f ∈ listed, d f = none) :
    ∃ final, Gathers (L.member read) entries d final ∧
      (∀ f ∈ listed, ∃ v, final f = some v ∧ right f v) ∧ ∀ f ∉ listed, final f = d f := by
  induction lists generalizing d with
  | nil => exact ⟨d, rfl, nofun, fun _ _ => rfl⟩
  | @field f e entries listed isKnown spelled held lists ih =>
      obtain ⟨absent, distinct⟩ := List.nodup_cons.mp distinct
      obtain ⟨v, taken, good⟩ := takes f e.value held
      have blank := unread f List.mem_cons_self
      have others : ∀ g ∈ listed, L.set d f v g = none := by
        intro g member
        rw [set_other L d v fun same : f = g => absent (same ▸ member)]
        exact unread g (List.mem_cons_of_mem f member)
      obtain ⟨final, gathers, found, kept⟩ := ih (L.set d f v) distinct others
      refine ⟨final, ⟨L.name f, _, L.set d f v, spelled, ?_, taken.map (L.set d f), gathers⟩, ?_, ?_⟩
      · simp only [member, named f isKnown, blank]
        rfl
      · intro g member
        rcases List.mem_cons.mp member with rfl | member
        · exact ⟨v, (kept g absent).trans (set_same L d g v), good⟩
        · exact found g member
      · intro g unlisted
        obtain ⟨apart, unlisted⟩ := not_or.mp (mt List.mem_cons.mpr unlisted)
        exact (kept g unlisted).trans (set_other L d v (Ne.symm apart))
  | @other n e entries listed spelled unknown valid lists ih =>
      obtain ⟨final, gathers, found, kept⟩ := ih d distinct unread
      obtain ⟨gap, blanks, short, skipped⟩ := skips e.value valid
      refine ⟨final, ⟨n, fun input => do .ok (d, ← skipValue input), d, spelled, ?_, ?_, gathers⟩,
        found, kept⟩
      · simp only [member, L.field?_of_unknown unknown]
      · refine ⟨gap, blanks, short, fun s rest stop => ?_⟩
        simp only [skipped s rest stop, bind, Except.bind]

theorem record_blanks {gap : List Char} (blanks : Blanks gap) (depth : Nat)
    (read : Nat → (f : L.Field) → Reader (L.Value f)) (finish : L.Draft → Except ShapeFault α)
    (input : Input) : L.record depth read finish (before gap input) = L.record depth read finish input := by
  rw [record, record, draft, draft, glimpse_blanks blanks]

/-- A record is read from the text of an object that lists its fields. -/
theorem record_of_lists {depth : Nat} {read : Nat → (f : L.Field) → Reader (L.Value f)}
    {holds : L.Field → List Char → Prop} {other : List Char → Prop}
    {right : (f : L.Field) → L.Value f → Prop} {entries : List Entry} {listed : List L.Field}
    (lists : Lists L.all L.name holds other entries listed)
    (named : ∀ f ∈ L.all, L.field? (L.name f) = some f) (distinct : L.all.Nodup)
    (takes : ∀ f text, holds f text → ∃ v, Takes (read depth f) text v ∧ right f v)
    (skips : ∀ text, other text → Skips text) (perm : listed.Perm L.all)
    {gap : List Char} (blanks : Blanks gap) :
    ∃ d : L.Draft, (∀ f ∈ L.all, ∃ v, d f = some v ∧ right f v) ∧
      ∀ {β : Type} {finish : L.Draft → Except ShapeFault β} {b : β}, finish d = .ok b → ∀ rest,
        L.record (depth + 1) read finish (before (objectText gap entries) rest) = .ok (b, rest) := by
  obtain ⟨d, gathers, found, -⟩ := L.gathers_of_lists lists named takes skips L.blank
    (perm.nodup_iff.mpr distinct) fun _ _ => rfl
  refine ⟨d, fun f member => found f (perm.mem_iff.mpr member), fun finishes rest => ?_⟩
  have gathered := members_inside gathers blanks rest
  unfold record draft
  rw [glimpse_objectText]
  simp only [bind, Except.bind, List.drop_succ_cons, List.drop_zero, gathered, finishes]

/-- A record whose fields are written out, each under its name, is read back. -/
theorem record_renderObject {depth : Nat} {read : Nat → (f : L.Field) → Reader (L.Value f)}
    {finish : L.Draft → Except ShapeFault α} {values : (f : L.Field) → L.Value f}
    {text : L.Field → List Char} {a : α} (complete : ∀ f, f ∈ L.all)
    (named : ∀ f ∈ L.all, L.field? (L.name f) = some f) (distinct : L.all.Nodup)
    (takes : ∀ f, Takes (read depth f) (text f) (values f))
    (finishes : finish (fun f => some (values f)) = .ok a) (rest : Input) :
    L.record (depth + 1) read finish
        (before (renderObject (L.all.map fun f => (L.name f, text f))) rest) = .ok (a, rest) := by
  have lists : Lists L.all L.name (fun f t => t = text f) (fun _ => False)
      (L.all.map fun f => written (L.name f, text f)) L.all := by
    refine lists_written ?_ fun f _ => complete f
    exact fun f => rfl
  have takes : ∀ f t, t = text f → ∃ v, Takes (read depth f) t v ∧ v = values f :=
    fun f t same => ⟨values f, same ▸ takes f, rfl⟩
  obtain ⟨d, found, done⟩ := L.record_of_lists lists named distinct takes
    (fun _ absurd_ => absurd_.elim) (.refl _) .nil
  have full : d = fun f => some (values f) := by
    funext f
    obtain ⟨v, here, rfl⟩ := found f (complete f)
    exact here
  rw [renderObject_eq, List.map_map]
  exact done (full ▸ finishes) rest

/-! What an object has to name. -/

section

variable {L} {read : (f : L.Field) → Reader (L.Value f)}

/-- What a name has done to a draft. -/
inductive Noted (d : L.Draft) (name : String) : L.Draft → Prop
  | field {f : L.Field} {v : L.Value f} (known : L.field? name = some f) (unread : d f = none) :
      Noted d name (L.set d f v)
  | other (unknown : L.field? name = none) : Noted d name d

/-- Whatever is done with a member, its value is passed. -/
theorem noted_of_member (passed : ∀ f, Passed (read f)) {d next : L.Draft} {name : String}
    {reader : Reader L.Draft} {input rest : Input} (known : L.member read d name = .ok reader)
    (taken : reader input = .ok (next, rest)) : skipValue input = .ok rest ∧ Noted d name next := by
  unfold member at known
  split at known
  · rename_i f found
    split at known
    · cases known
    · rename_i unread
      cases known
      obtain ⟨⟨v, behind⟩, taken, done⟩ := bind_eq_ok taken
      cases done
      exact ⟨skipValue_of_passed (passed f) taken, .field found (Option.not_isSome_iff_eq_none.mp unread)⟩
  · rename_i unknown
    cases known
    obtain ⟨behind, skipped, done⟩ := bind_eq_ok taken
    cases done
    exact ⟨skipped, .other unknown⟩

theorem noted_of_entry (passed : ∀ f, Passed (read f)) {e : Entry} {name : String}
    (names : e.Names name) {first : Bool} {input start rest : Input} {entries : List Entry}
    (begins : Begins first input start)
    (here : skipSpace start = skipSpace (before e.text (later entries rest))) {d final : L.Draft}
    {left : Input} (done : members (L.member read) input first d = .ok (final, left)) :
    ∃ next gap, Blanks gap ∧ Noted d name next ∧
      members (L.member read) (before gap (later entries rest)) false next = .ok (final, left) := by
  obtain ⟨named, gap, blanks, -, skips⟩ := names
  obtain ⟨s, tail, stop, same⟩ := later_stops entries rest
  rw [members_of_entry named begins here] at done
  obtain ⟨reader, known, done⟩ := bind_eq_ok done
  obtain ⟨⟨next, behind⟩, taken, done⟩ := bind_eq_ok done
  obtain ⟨skipped, noted⟩ := noted_of_member passed known taken
  rw [same, skips s tail stop, ← same] at skipped
  obtain rfl := Except.ok.inj skipped
  simp only at done
  split at done
  · exact ⟨next, gap, blanks, noted, done⟩
  · cases done

/-- A field is not named and stays as it was, or is named once and had not been read. -/
def NamedOnce (names : List String) (d final : L.Draft) (f : L.Field) : Prop :=
  names.count (L.name f) = 0 ∧ final f = d f ∨ names.count (L.name f) = 1 ∧ d f = none

theorem Noted.namedOnce {d next final : L.Draft} {name : String} (noted : Noted d name next)
    {names : List String} {f : L.Field} (known : L.field? (L.name f) = some f)
    (behind : NamedOnce names next final f) : NamedOnce (name :: names) d final f := by
  cases noted with
  | @field g v named unread =>
      by_cases same : f = g
      · subst same
        have here : L.name f = name := L.name_of_field? named
        rcases behind with ⟨none_, -⟩ | ⟨-, blank⟩
        · exact .inr ⟨by rw [List.count_cons, none_, here, beq_self_eq_true]; rfl, unread⟩
        · rw [set_same] at blank
          cases blank
      · have apart : L.name f ≠ name := by
          rintro rfl
          exact same (Option.some.inj (known.symm.trans named))
        rw [NamedOnce, set_other L d v (Ne.symm same)] at behind
        rwa [NamedOnce, List.count_cons_of_ne (Ne.symm apart)]
  | other unknown =>
      have apart : L.name f ≠ name := by
        rintro rfl
        rw [known] at unknown
        cases unknown
      rwa [NamedOnce, List.count_cons_of_ne (Ne.symm apart)]

theorem namedOnce_of_later (passed : ∀ f, Passed (read f)) {entries : List Entry}
    {names : List String} (named : List.Forall₂ Entry.Names entries names) {gap : List Char}
    (blanks : Blanks gap) {d final : L.Draft} {rest left : Input}
    (done : members (L.member read) (before gap (later entries rest)) false d = .ok (final, left))
    {f : L.Field} (known : L.field? (L.name f) = some f) : NamedOnce names d final f := by
  induction named generalizing gap d with
  | nil =>
      have ended := done.symm.trans (members_of_closed _ blanks false d rest)
      cases ended
      exact .inl ⟨rfl, rfl⟩
  | @cons e name entries names here _ ih =>
      obtain ⟨next, gap', blanks', noted, done⟩ :=
        noted_of_entry passed here (begins_later blanks e entries rest) rfl done
      exact noted.namedOnce known (ih blanks' done)

theorem namedOnce_of_inside (passed : ∀ f, Passed (read f)) {entries : List Entry}
    {names : List String} (named : List.Forall₂ Entry.Names entries names) {gap : List Char}
    (blanks : Blanks gap) {d final : L.Draft} {rest left : Input}
    (done : members (L.member read) (before gap (inside entries rest)) true d = .ok (final, left))
    {f : L.Field} (known : L.field? (L.name f) = some f) : NamedOnce names d final f := by
  cases named with
  | nil =>
      have ended := done.symm.trans (members_of_closed _ blanks true d rest)
      cases ended
      exact .inl ⟨rfl, rfl⟩
  | @cons e name entries names here named =>
      obtain ⟨next, gap', blanks', noted, done⟩ :=
        noted_of_entry passed here .first (skipSpace_blanks blanks _) done
      exact noted.namedOnce known (namedOnce_of_later passed named blanks' done known)

/-- An object from which a record is read names each field just once, if none may be absent. -/
theorem count_of_record {depth : Nat} {read : Nat → (f : L.Field) → Reader (L.Value f)}
    {finish : L.Draft → Except ShapeFault α} (passed : ∀ f, Passed (read depth f))
    {entries : List Entry} {names : List String} (named : List.Forall₂ Entry.Names entries names)
    {gap : List Char} (blanks : Blanks gap) {a : α} {rest left : Input}
    (done : L.record (depth + 1) read finish (before (objectText gap entries) rest) = .ok (a, left))
    {f : L.Field} (known : L.field? (L.name f) = some f)
    (required : ∀ d, finish d = .ok a → (d f).isSome) : names.count (L.name f) = 1 := by
  obtain ⟨⟨d, behind⟩, drafted, done⟩ := bind_eq_ok done
  unfold draft at drafted
  rw [glimpse_objectText] at drafted
  have once := namedOnce_of_inside passed named blanks drafted known
  simp only at done
  split at done
  · rename_i finishes
    cases done
    rcases once with ⟨-, blank⟩ | ⟨once, -⟩
    · have some_ := required d finishes
      rw [blank] at some_
      cases some_
    · exact once
  · cases done

end

end Layout

/-! Objects of strings, as values. -/

theorem mem_insertMember_self (name : String) (a : α) (members : List (String × α)) :
    (name, a) ∈ insertMember name a members := by
  induction members with
  | nil => exact List.mem_singleton.mpr rfl
  | cons m members ih =>
      rw [insertMember]
      split
      · exact List.mem_cons_self
      split
      · exact List.mem_cons_self
      · exact List.mem_cons_of_mem _ ih

theorem mem_insertMember_of_ne {name : String} {a : α} {m : String × α} {members : List (String × α)}
    (apart : m.1 ≠ name) (member : m ∈ members) : m ∈ insertMember name a members := by
  induction members with
  | nil => cases member
  | cons other members ih =>
      rw [insertMember]
      split
      · exact List.mem_cons_of_mem _ member
      split
      · rename_i same
        rcases List.mem_cons.mp member with rfl | member
        · exact absurd same.symm apart
        · exact List.mem_cons_of_mem _ member
      · rcases List.mem_cons.mp member with rfl | member
        · exact List.mem_cons_self
        · exact List.mem_cons_of_mem _ (ih member)

theorem mem_of_mem_insertMember {name : String} {a : α} {m : String × α}
    {members : List (String × α)} (member : m ∈ insertMember name a members) :
    m = (name, a) ∨ m ∈ members := by
  induction members with
  | nil => exact .inl (List.mem_singleton.mp member)
  | cons other members ih =>
      rw [insertMember] at member
      split at member
      · exact List.mem_cons.mp member
      split at member
      · exact (List.mem_cons.mp member).imp_right (List.mem_cons_of_mem _)
      · rcases List.mem_cons.mp member with rfl | member
        · exact .inr List.mem_cons_self
        · exact (ih member).imp_right (List.mem_cons_of_mem _)

/-- Members with the names of the texts are those of the texts. -/
def Agrees (texts : List (String × String)) (gathered : List (String × Json)) : Prop :=
  ∀ m ∈ gathered, m.1 ∈ texts.map (·.1) → m ∈ texts.map textMember

/-- All texts that are listed get among the members, and no member takes the place of one. -/
theorem gathers_of_texts {depth : Nat} {texts listed : List (String × String)} {entries : List Entry}
    (lists : Lists texts (·.1) (fun t => Spells t.2) (Valid depth) entries listed)
    (distinct : (texts.map (·.1)).Nodup) (gathered : List (String × Json))
    (agrees : Agrees texts gathered) :
    ∃ final, Gathers (gather depth) entries gathered final ∧ Agrees texts final ∧
      ∀ t ∈ texts, t ∈ listed ∨ textMember t ∈ gathered → textMember t ∈ final := by
  induction lists generalizing gathered with
  | nil => exact ⟨gathered, rfl, agrees, fun t _ either => either.resolve_left nofun⟩
  | @field t e entries listed isKnown named held lists ih =>
      have agrees : Agrees texts (insertMember t.1 (.str t.2) gathered) := by
        intro m member known
        rcases mem_of_mem_insertMember member with rfl | member
        · exact List.mem_map_of_mem isKnown
        · exact agrees m member known
      obtain ⟨final, gathers, agrees, kept⟩ := ih _ agrees
      refine ⟨final, ⟨t.1, _, _, named, rfl, ?_, gathers⟩, agrees, fun u known either => ?_⟩
      · exact (takes_string depth held).map fun v => insertMember t.1 v gathered
      · refine kept u known ?_
        by_cases same : u.1 = t.1
        · obtain rfl := List.inj_on_of_nodup_map distinct known isKnown same
          exact .inr (mem_insertMember_self u.1 _ gathered)
        · rcases either with member | member
          · rcases List.mem_cons.mp member with rfl | member
            · exact absurd rfl same
            · exact .inl member
          · exact .inr (mem_insertMember_of_ne same member)
  | @other n e entries listed named unknown valid lists ih =>
      obtain ⟨v, takes⟩ := valid.takes
      have agrees : Agrees texts (insertMember n v gathered) := by
        intro m member known
        rcases mem_of_mem_insertMember member with rfl | member
        · exact absurd known unknown
        · exact agrees m member known
      obtain ⟨final, gathers, agrees, kept⟩ := ih _ agrees
      refine ⟨final, ⟨n, _, _, named, rfl, takes.map fun v => insertMember n v gathered, gathers⟩,
        agrees, fun t known either => kept t known ?_⟩
      have apart : t.1 ≠ n := fun same => unknown (same ▸ List.mem_map_of_mem known)
      exact either.imp_right (mem_insertMember_of_ne apart)

/-- A draft of members that are decoded to given values has the values of all that it names. -/
theorem Layout.ofMembers_of_values (L : Layout)
    {decode : (f : L.Field) → Json → Except ShapeFault (L.Value f)} {values : (f : L.Field) → L.Value f}
    {members : List (String × Json)}
    (decodes : ∀ m ∈ members, ∀ f, L.field? m.1 = some f → decode f m.2 = .ok (values f))
    (d : L.Draft) :
    ∃ final, L.ofMembers decode d members = .ok final ∧
      ∀ f, (d f = some (values f) ∨ ∃ m ∈ members, L.field? m.1 = some f) →
        final f = some (values f) := by
  induction members generalizing d with
  | nil => exact ⟨d, rfl, fun f either => either.resolve_right (by rintro ⟨m, ⟨⟩, -⟩)⟩
  | cons m members ih =>
      obtain ⟨n, j⟩ := m
      have behind := ih fun m member => decodes m (List.mem_cons_of_mem _ member)
      rw [ofMembers]
      cases known : L.field? n with
      | none =>
          obtain ⟨final, done, found⟩ := behind d
          refine ⟨final, done, fun f either => found f (either.imp_right ?_)⟩
          rintro ⟨m, member, here⟩
          rcases List.mem_cons.mp member with rfl | member
          · rw [known] at here
            cases here
          · exact ⟨m, member, here⟩
      | some g =>
          obtain ⟨final, done, found⟩ := behind (L.set d g (values g))
          have decoded := decodes (n, j) List.mem_cons_self g known
          simp only [decoded]
          refine ⟨final, done, fun f either => found f ?_⟩
          by_cases same : g = f
          · subst same
            exact .inl (set_same L d g (values g))
          · rw [set_other L d (values g) same]
            refine either.imp_right ?_
            rintro ⟨m, member, here⟩
            rcases List.mem_cons.mp member with rfl | member
            · exact absurd (Option.some.inj (known.symm.trans here)) same
            · exact ⟨m, member, here⟩

end VaultTransfers.Json
