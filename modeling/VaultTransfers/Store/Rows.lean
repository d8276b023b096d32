/-!
Changing one row of a table that is a list.
-/

namespace VaultTransfers.Store

/-- Changes the first row that satisfies `p`, if there is one. -/
def changeFirst (p : α → Bool) (f : α → α) : List α → List α
  | [] => []
  | a :: as => if p a then f a :: as else a :: changeFirst p f as

/-- Changes the first row that satisfies `p`, or adds a row at the end. -/
def changeOrAdd (p : α → Bool) (f : α → α) (new : α) (rows : List α) : List α :=
  if rows.any p then changeFirst p f rows else rows ++ [new]

variable {p : α → Bool} {f : α → α}

theorem length_changeFirst (rows : List α) : (changeFirst p f rows).length = rows.length := by
  induction rows with
  | nil => rfl
  | cons a as ih => by_cases h : p a <;> simp [changeFirst, h, ih]

theorem changeFirst_of_none {rows : List α} (h : ∀ a ∈ rows, p a = false) :
    changeFirst p f rows = rows := by
  induction rows with
  | nil => rfl
  | cons a as ih =>
      have ha := h a (by simp)
      simp [changeFirst, ha, ih fun b hb => h b (by simp [hb])]

/-- A projection that the change keeps is kept of the whole table. -/
theorem map_changeFirst {g : α → β} (keep : ∀ a, p a = true → g (f a) = g a) (rows : List α) :
    (changeFirst p f rows).map g = rows.map g := by
  induction rows with
  | nil => rfl
  | cons a as ih => by_cases h : p a <;> simp [changeFirst, h, ih, keep]

end VaultTransfers.Store
