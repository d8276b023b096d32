import Mathlib.Tactic.ByContra
import VaultTransfers.Store.Rows

/-!
What a change of the first fitting row leaves of a table's rows, of the rows of
one group, and of what is found in the table.
-/

namespace VaultTransfers.Store

variable {α β : Type} {p q : α → Bool} {f : α → α}

theorem mem_changeFirst_of_not {a : α} {rows : List α} (member : a ∈ rows) (spared : p a = false) :
    a ∈ changeFirst p f rows := by
  induction rows with
  | nil => simp at member
  | cons b bs ih =>
      cases fits : p b with
      | true =>
          rcases List.mem_cons.mp member with rfl | later
          · simp [fits] at spared
          · simp [changeFirst, fits, later]
      | false =>
          rcases List.mem_cons.mp member with rfl | later
          · simp [changeFirst, fits]
          · simp [changeFirst, fits, ih later]

theorem mem_changeFirst_of_fits {a b : α} {rows : List α} (member : a ∈ rows) (fits : p a = true) :
    b ∈ changeFirst p (fun _ => b) rows := by
  induction rows with
  | nil => cases member
  | cons c cs ih =>
      cases here : p c with
      | true => simp [changeFirst, here]
      | false =>
          rcases List.mem_cons.mp member with rfl | later
          · rw [fits] at here
            cases here
          · simp [changeFirst, here, ih later]

theorem mem_of_mem_changeFirst {a : α} {rows : List α} (member : a ∈ changeFirst p f rows) :
    a ∈ rows ∨ ∃ b ∈ rows, p b = true ∧ a = f b := by
  induction rows with
  | nil => simp [changeFirst] at member
  | cons b bs ih =>
      cases fits : p b with
      | true =>
          simp only [changeFirst, fits, if_true, List.mem_cons] at member
          rcases member with changed | later
          · exact .inr ⟨b, List.mem_cons_self, fits, changed⟩
          · exact .inl (List.mem_cons_of_mem b later)
      | false =>
          simp only [changeFirst, fits, Bool.false_eq_true, if_false, List.mem_cons] at member
          rcases member with same | later
          · exact .inl (same ▸ List.mem_cons_self)
          · rcases ih later with kept | ⟨c, among, fitting, changed⟩
            · exact .inl (List.mem_cons_of_mem b kept)
            · exact .inr ⟨c, List.mem_cons_of_mem b among, fitting, changed⟩

theorem changeFirst_congr {p' : α → Bool} {f' : α → α} {rows : List α}
    (fits : ∀ a ∈ rows, p a = p' a) (same : ∀ a ∈ rows, p a = true → f a = f' a) :
    changeFirst p f rows = changeFirst p' f' rows := by
  induction rows with
  | nil => rfl
  | cons b bs ih =>
      have here := fits b List.mem_cons_self
      have rest := ih (fun a member => fits a (List.mem_cons_of_mem b member))
        (fun a member => same a (List.mem_cons_of_mem b member))
      cases fit : p b with
      | true => simp [changeFirst, ← here, fit, same b List.mem_cons_self fit]
      | false => simp [changeFirst, ← here, fit, rest]

/-- A projection of which the test and the change are tests and changes, too. -/
theorem map_changeFirst_of_comm {g : α → β} {p' : β → Bool} {f' : β → β}
    (fits : ∀ a, p' (g a) = p a) (same : ∀ a, g (f a) = f' (g a)) (rows : List α) :
    (changeFirst p f rows).map g = changeFirst p' f' (rows.map g) := by
  induction rows with
  | nil => rfl
  | cons b bs ih =>
      cases fit : p b with
      | true => simp [changeFirst, fits, fit, same]
      | false => simp [changeFirst, fits, fit, ih]

theorem changeFirst_eq_self {rows : List α} (same : ∀ a ∈ rows, p a = true → f a = a) :
    changeFirst p f rows = rows := by
  induction rows with
  | nil => rfl
  | cons b bs ih =>
      cases fits : p b with
      | true => simp [changeFirst, fits, same b List.mem_cons_self fits]
      | false =>
          simp [changeFirst, fits, ih fun a member => same a (List.mem_cons_of_mem b member)]

/-- Where at most one row fits, changing the first that fits is changing all that fit. -/
theorem changeFirst_eq_map {rows : List α}
    (single : rows.Pairwise fun a b => p a = true → p b = false) :
    changeFirst p f rows = rows.map fun a => if p a then f a else a := by
  induction rows with
  | nil => rfl
  | cons b bs ih =>
      obtain ⟨first, rest⟩ := List.pairwise_cons.mp single
      cases fits : p b with
      | true =>
          have spared : bs.map (fun a => if p a then f a else a) = bs.map id :=
            List.map_congr_left fun a member => by simp [first a member fits]
          simp [changeFirst, fits, spared]
      | false => simp [changeFirst, fits, ih rest]

theorem filter_changeFirst {rows : List α}
    (within : ∀ a ∈ rows, p a = true → q a = true ∧ q (f a) = true) :
    (changeFirst p f rows).filter q = changeFirst p f (rows.filter q) := by
  induction rows with
  | nil => rfl
  | cons b bs ih =>
      have rest := ih fun a member => within a (List.mem_cons_of_mem b member)
      cases fits : p b with
      | true => simp [changeFirst, fits, within b List.mem_cons_self fits]
      | false =>
          cases grouped : q b with
          | true => simp [changeFirst, fits, grouped, rest]
          | false => simp [changeFirst, fits, grouped, rest]

theorem filter_changeFirst_of_outside {rows : List α}
    (outside : ∀ a ∈ rows, p a = true → q a = false ∧ q (f a) = false) :
    (changeFirst p f rows).filter q = rows.filter q := by
  induction rows with
  | nil => rfl
  | cons b bs ih =>
      cases fits : p b with
      | true =>
          obtain ⟨before, after⟩ := outside b List.mem_cons_self fits
          simp [changeFirst, fits, before, after]
      | false =>
          have rest := ih fun a member => outside a (List.mem_cons_of_mem b member)
          cases grouped : q b with
          | true => simp [changeFirst, fits, grouped, rest]
          | false => simp [changeFirst, fits, grouped, rest]

theorem filter_changeFirst_of_single {a : α} {rows : List α} (single : rows.filter p = [a]) :
    (changeFirst p f rows).filter p = [f a].filter p := by
  induction rows with
  | nil => simp at single
  | cons b bs ih =>
      cases fits : p b with
      | true =>
          simp only [List.filter_cons, fits, if_true, List.cons.injEq] at single
          obtain ⟨rfl, none⟩ := single
          simp only [changeFirst, fits, if_true, List.filter_cons, none, List.filter_nil]
      | false =>
          simp only [List.filter_cons, fits, Bool.false_eq_true, if_false] at single
          simp [changeFirst, fits, ih single]

theorem mem_changeFirst_iff_of_single {a b : α} {rows : List α} (single : rows.filter p = [a]) :
    b ∈ changeFirst p f rows ↔ b = f a ∨ b ∈ rows ∧ p b = false := by
  induction rows with
  | nil => simp at single
  | cons c cs ih =>
      cases fits : p c with
      | true =>
          simp only [List.filter_cons, fits, if_true, List.cons.injEq] at single
          obtain ⟨rfl, none⟩ := single
          have spared : ∀ d ∈ cs, p d = false := by
            intro d member
            by_contra fitting
            rw [Bool.not_eq_false] at fitting
            have : d ∈ cs.filter p := List.mem_filter.mpr ⟨member, fitting⟩
            rw [none] at this
            exact List.not_mem_nil this
          simp only [changeFirst, fits, if_true, List.mem_cons]
          constructor
          · rintro (rfl | member)
            · exact .inl rfl
            · exact .inr ⟨.inr member, spared b member⟩
          · rintro (rfl | ⟨rfl | member, unfit⟩)
            · exact .inl rfl
            · simp [fits] at unfit
            · exact .inr member
      | false =>
          simp only [List.filter_cons, fits, Bool.false_eq_true, if_false] at single
          simp only [changeFirst, fits, Bool.false_eq_true, if_false, List.mem_cons, ih single]
          constructor
          · rintro (rfl | rfl | ⟨member, unfit⟩)
            · exact .inr ⟨.inl rfl, fits⟩
            · exact .inl rfl
            · exact .inr ⟨.inr member, unfit⟩
          · rintro (rfl | ⟨rfl | member, unfit⟩)
            · exact .inr (.inl rfl)
            · exact .inl rfl
            · exact .inr (.inr ⟨member, unfit⟩)

theorem nodup_map_changeFirst {key : α → β} {rows : List α} (unique : (rows.map key).Nodup)
    (fresh : ∀ a ∈ rows, p a = true → ∀ b ∈ rows, key b ≠ key (f a)) :
    ((changeFirst p f rows).map key).Nodup := by
  induction rows with
  | nil => simp [changeFirst]
  | cons b bs ih =>
      obtain ⟨absent, rest⟩ := List.nodup_cons.mp unique
      cases fits : p b with
      | true =>
          simp only [changeFirst, fits, if_true, List.map_cons, List.nodup_cons]
          refine ⟨?_, rest⟩
          intro found
          obtain ⟨c, member, same⟩ := List.mem_map.mp found
          exact fresh b List.mem_cons_self fits c (List.mem_cons_of_mem b member) same
      | false =>
          simp only [changeFirst, fits, Bool.false_eq_true, if_false, List.map_cons,
            List.nodup_cons]
          refine ⟨?_, ih rest fun a member fitting c among =>
            fresh a (List.mem_cons_of_mem b member) fitting c (List.mem_cons_of_mem b among)⟩
          intro found
          obtain ⟨c, member, same⟩ := List.mem_map.mp found
          rcases mem_of_mem_changeFirst member with kept | ⟨d, among, fitting, rfl⟩
          · exact absent (same ▸ List.mem_map_of_mem kept)
          · exact fresh d (List.mem_cons_of_mem b among) fitting b List.mem_cons_self same.symm

/-- What holds of every two rows is kept, if the changed row keeps it with each of the others. -/
theorem pairwise_changeFirst {R : α → α → Prop} (symm : ∀ a b, R a b → R b a) {rows : List α}
    (apart : rows.Pairwise R) (kept : ∀ a ∈ rows, p a = true → ∀ b ∈ rows, R a b → R (f a) b) :
    (changeFirst p f rows).Pairwise R := by
  induction rows with
  | nil => exact .nil
  | cons b bs ih =>
      obtain ⟨first, rest⟩ := List.pairwise_cons.mp apart
      cases fits : p b with
      | true =>
          simp only [changeFirst, fits, if_true]
          refine List.pairwise_cons.mpr ⟨?_, rest⟩
          intro c member
          exact kept b List.mem_cons_self fits c (List.mem_cons_of_mem b member) (first c member)
      | false =>
          simp only [changeFirst, fits, Bool.false_eq_true, if_false]
          refine List.pairwise_cons.mpr ⟨?_, ih rest fun a member fitting c among =>
            kept a (List.mem_cons_of_mem b member) fitting c (List.mem_cons_of_mem b among)⟩
          intro c member
          rcases mem_of_mem_changeFirst member with same | ⟨d, among, fitting, rfl⟩
          · exact first c same
          · exact symm _ _ (kept d (List.mem_cons_of_mem b among) fitting b List.mem_cons_self
              (symm b d (first d among)))

end VaultTransfers.Store
