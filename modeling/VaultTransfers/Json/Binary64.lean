import VaultTransfers.Powers

/-!
Finite numbers of the binary64 format, in exact integer arithmetic: rounding a
quotient to the nearest of them, and the shortest decimal that rounds back. A
JSON number that is no integer of 64 bits is one of these.
-/

namespace VaultTransfers

/-- The number `mantissa * 2 ^ exponent` with a sign. The mantissa is below 2^53, and below 2^52
only at the least exponent, -1074. -/
structure Binary64 where
  negative : Bool
  mantissa : Nat
  exponent : Int
deriving DecidableEq, Repr

namespace Binary64

def leastExponent : Int := -1074

def greatestExponent : Int := 971

/-- A quotient rounded to the nearest integer, a half to the even one. -/
def roundDiv (n d : Nat) : Nat :=
  let q := n / d
  let r := n % d
  if 2 * r < d then q else if d < 2 * r then q + 1 else q + q % 2

/-- The quotient `num / den / 2 ^ e` as numerator and denominator. -/
def shifted (num den : Nat) (e : Int) : Nat × Nat :=
  if 0 ≤ e then (num, den * twoTo e.toNat) else (num * twoTo (-e).toNat, den)

/-- The exponent at which the quotient has a mantissa of 53 bits, or the least. -/
def scaleOf (num den : Nat) : Int :=
  let guess : Int := (Nat.log2 num : Int) - Nat.log2 den - 52
  let (n, d) := shifted num den guess
  max leastExponent (if n < d * twoTo 52 then guess - 1 else guess)

/-- The nearest number to a quotient, or nothing when it would be infinite. -/
def nearest? (negative : Bool) (num den : Nat) : Option Binary64 :=
  if num = 0 then some ⟨negative, 0, leastExponent⟩
  else
    let e := scaleOf num den
    let (n, d) := shifted num den e
    let m := roundDiv n d
    let (m, e) := if m = twoTo 53 then (twoTo 52, e + 1) else (m, e)
    if greatestExponent < e then none else some ⟨negative, m, e⟩

/-- The magnitude as numerator and denominator. -/
def ratio (x : Binary64) : Nat × Nat :=
  if 0 ≤ x.exponent then (x.mantissa * twoTo x.exponent.toNat, 1)
  else (x.mantissa, twoTo (-x.exponent).toNat)

def isZero (x : Binary64) : Bool :=
  x.mantissa = 0

/-- The product of magnitudes, with the first sign. -/
def scaleUp? (x y : Binary64) : Option Binary64 :=
  nearest? x.negative (x.ratio.1 * y.ratio.1) (x.ratio.2 * y.ratio.2)

/-- The quotient of magnitudes, with the first sign. -/
def scaleDown? (x y : Binary64) : Option Binary64 :=
  nearest? x.negative (x.ratio.1 * y.ratio.2) (x.ratio.2 * y.ratio.1)

/-- The sum of two magnitudes. -/
def sum? (x y : Binary64) : Option Binary64 :=
  nearest? false (x.ratio.1 * y.ratio.2 + y.ratio.1 * x.ratio.2) (x.ratio.2 * y.ratio.2)

/-- The position of the decimal point: the least `p` such that the quotient is below `10 ^ p`. -/
def pointOf (num den : Nat) : Int :=
  if den ≤ num then (Nat.toDigits 10 (num / den)).length
  else
    let t := (Nat.toDigits 10 (den / num)).length
    if den ≤ num * tenTo (t - 1) then 2 - (t : Int) else 1 - (t : Int)

/-- Whether the decimal `c * 10 ^ k` rounds to the number. The interval reaches half way to either
neighbour, and its ends belong to it iff the mantissa is even. -/
def roundsTo (x : Binary64) (c : Nat) (k : Int) : Bool :=
  let (cn, cd) := if 0 ≤ k then (c * tenTo k.toNat, 1) else (c, tenTo (-k).toNat)
  let (n, d) := shifted cn cd (x.exponent - 2)
  let below := if x.mantissa = twoTo 52 ∧ leastExponent < x.exponent then 1 else 2
  let low := (4 * x.mantissa - below) * d
  let high := (4 * x.mantissa + 2) * d
  if x.mantissa % 2 = 0 then low ≤ n && n ≤ high else low < n && n < high

/-- Of the two neighbours on the grid of `10 ^ k`, the nearest that rounds to the number. -/
def onGrid? (x : Binary64) (k : Int) : Option Nat :=
  let (num, den) := x.ratio
  let (n, d) := if 0 ≤ k then (num, den * tenTo k.toNat) else (num * tenTo (-k).toNat, den)
  let near := roundDiv n d
  let far := if near = n / d then n / d + 1 else n / d
  if roundsTo x near k then some near else if roundsTo x far k then some far else none

def shortestFrom (x : Binary64) (point : Int) : (remaining : Nat) → (count : Nat) → Nat × Int
  | 0, _ => (0, 0)
  | remaining + 1, count =>
    match onGrid? x (point - count) with
    | some c => (c, point - count)
    | none => shortestFrom x point remaining (count + 1)

/-- The digits and exponent of the shortest decimal that rounds to a number that is not zero. -/
def shortest (x : Binary64) : Nat × Int :=
  shortestFrom x (pointOf x.ratio.1 x.ratio.2) 17 1

/-- Digits without the zeros at their end, and how many there were. -/
def withoutEndZeros (cs : List Char) : List Char × Nat :=
  let kept := (cs.reverse.dropWhile (· = '0')).reverse
  (kept, cs.length - kept.length)

/-- The written magnitude of digits with a decimal point at `point`. Up to sixteen digits stand
before the point and up to four zeros behind it; beyond that an exponent is written. A number
without a fraction keeps `.0`. -/
def layout (digits : List Char) (point : Int) : List Char :=
  let length : Int := digits.length
  if length ≤ point ∧ point ≤ 16 then
    digits ++ List.replicate (point - length).toNat '0' ++ ['.', '0']
  else if 0 < point ∧ point ≤ 16 then
    digits.take point.toNat ++ '.' :: digits.drop point.toNat
  else if -5 < point ∧ point ≤ 0 then
    '0' :: '.' :: (List.replicate (-point).toNat '0' ++ digits)
  else
    let e := point - 1
    let mark := if e < 0 then '-' :: Nat.toDigits 10 e.natAbs else Nat.toDigits 10 e.toNat
    match digits with
    | [] => []
    | [c] => c :: 'e' :: mark
    | c :: cs => c :: '.' :: (cs ++ 'e' :: mark)

def render (x : Binary64) : List Char :=
  let magnitude :=
    if x.isZero then ['0', '.', '0']
    else
      let (c, k) := shortest x
      let (digits, zeros) := withoutEndZeros (Nat.toDigits 10 c)
      layout digits (digits.length + zeros + k)
  if x.negative then '-' :: magnitude else magnitude

end Binary64

end VaultTransfers
