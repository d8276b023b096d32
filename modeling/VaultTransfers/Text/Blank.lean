/-!
White space as the Unicode property `White_Space` lists it, and trimming by it.
`Char.isWhitespace` knows the ASCII members alone; environment values, amounts
and addresses typed by people are trimmed by the whole class.
-/

namespace VaultTransfers.Text

/-- The members of the Unicode property `White_Space`, as closed ranges of scalars. -/
def blankRanges : List (Nat × Nat) :=
  [(0x09, 0x0D), (0x20, 0x20), (0x85, 0x85), (0xA0, 0xA0), (0x1680, 0x1680),
   (0x2000, 0x200A), (0x2028, 0x2029), (0x202F, 0x202F), (0x205F, 0x205F), (0x3000, 0x3000)]

def isBlank (c : Char) : Bool :=
  blankRanges.any fun r => r.1 ≤ c.toNat && c.toNat ≤ r.2

def trimStart (cs : List Char) : List Char :=
  cs.dropWhile isBlank

def trimEnd (cs : List Char) : List Char :=
  (cs.reverse.dropWhile isBlank).reverse

/-- Blanks at both ends are dropped, those inside stay. -/
def trim (cs : List Char) : List Char :=
  trimEnd (trimStart cs)

theorem trim_eq_self {cs : List Char} (plain : ∀ c ∈ cs, isBlank c = false) : trim cs = cs := by
  have kept : ∀ ds : List Char, (∀ c ∈ ds, isBlank c = false) → ds.dropWhile isBlank = ds := by
    intro ds plain
    cases ds with
    | nil => rfl
    | cons d ds => rw [List.dropWhile_cons, plain d List.mem_cons_self, if_neg Bool.false_ne_true]
  have back : ∀ c ∈ cs.reverse, isBlank c = false := fun c member => plain c (List.mem_reverse.mp member)
  rw [trim, trimStart, kept cs plain, trimEnd, kept _ back, List.reverse_reverse]

end VaultTransfers.Text
