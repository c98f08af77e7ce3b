/-
Finite binary floating-point numbers of 64 bits, as exact integers.

A value is `± mantissa · 2 ^ exponent`.  Rounding takes a quotient of two
natural numbers to the nearest value, a tie to the even mantissa; the four
operations that reading a decimal numeral needs (`ofNat?`, `mul?`, `div?`,
`tenPower?`) are this one rounding of an exact quotient, and are `none` where
the result would be infinite.

`ofDecimal?` is the value of a numeral: its significand rounded first, and the
result multiplied or divided by a rounded power of ten.  It rounds up to three
times, so it need not give the value nearest to the numeral.
-/

namespace TypeCatalog

/-- A finite number `± mantissa · 2 ^ exponent`. -/
structure Binary64 where
  negative : Bool
  mantissa : Nat
  exponent : Int
  deriving DecidableEq

namespace Binary64

/-- The exponent of the smallest values. -/
def leastExponent : Int := -1074

/-- The exponent of the largest values. -/
def greatestExponent : Int := 971

/-- Zero with a sign. -/
def zero (negative : Bool) : Binary64 := ⟨negative, 0, leastExponent⟩

instance : Inhabited Binary64 := ⟨zero false⟩

/-- Whether this is zero, of either sign. -/
def isZero (x : Binary64) : Bool := x.mantissa == 0

/-- The natural number nearest to `num / den`, a tie to the even one. -/
def nearest (num den : Nat) : Nat :=
  let quotient := num / den
  let twice := 2 * (num % den)
  if twice < den then quotient
  else if den < twice then quotient + 1
  else quotient + quotient % 2

/-- `num / den` divided by `2 ^ e`, as a quotient again. -/
def descale (num den : Nat) (e : Int) : Nat × Nat :=
  if 0 ≤ e then (num, den * Nat.pow 2 e.toNat) else (num * Nat.pow 2 (-e).toNat, den)

/-- The exponent at which `num / den` has a mantissa of 53 bits, or the least one. -/
def exponentOf (num den : Nat) : Int :=
  let guess : Int := (Nat.log2 num : Int) - (Nat.log2 den : Int) - 52
  let (n, d) := descale num den guess
  let exact := if n < Nat.pow 2 52 * d then guess - 1 else guess
  max exact leastExponent

/-- The value nearest to `num / den`, or `none` beyond the largest value. -/
def ofQuotient? (negative : Bool) (num den : Nat) : Option Binary64 :=
  if num = 0 then some (zero negative)
  else
    let e := exponentOf num den
    let (n, d) := descale num den e
    let m := nearest n d
    let (m, e) := if m = Nat.pow 2 53 then (Nat.pow 2 52, e + 1) else (m, e)
    if e ≤ greatestExponent then some ⟨negative, m, e⟩ else none

/-- The magnitude as a quotient of natural numbers. -/
def toQuotient (x : Binary64) : Nat × Nat :=
  if 0 ≤ x.exponent then (x.mantissa * Nat.pow 2 x.exponent.toNat, 1)
  else (x.mantissa, Nat.pow 2 (-x.exponent).toNat)

/-- The value nearest to a natural number. -/
def ofNat? (n : Nat) : Option Binary64 := ofQuotient? false n 1

/-- The value nearest to an integer. -/
def ofInt? (i : Int) : Option Binary64 := ofQuotient? (i < 0) i.natAbs 1

/-- The product, rounded. -/
def mul? (x y : Binary64) : Option Binary64 :=
  let (a, b) := x.toQuotient
  let (c, d) := y.toQuotient
  ofQuotient? (x.negative != y.negative) (a * c) (b * d)

/-- The quotient, rounded; the divisor is not zero. -/
def div? (x y : Binary64) : Option Binary64 :=
  let (a, b) := x.toQuotient
  let (c, d) := y.toQuotient
  ofQuotient? (x.negative != y.negative) (a * d) (b * c)

/-- The power of ten, rounded. -/
def tenPower? (k : Nat) : Option Binary64 := ofNat? (Nat.pow 10 k)

/-- The largest power of ten that is not infinite. -/
def greatestTenPower : Nat := 308

/-- Divides by `10 ^ k`, in steps of at most `10 ^ 308`; three steps take any
significand below `2 ^ 64` to zero, after which nothing changes. -/
def divTenPower? : Nat → Binary64 → Nat → Option Binary64
  | 0, x, _ => some x
  | steps + 1, x, k =>
    if k ≤ greatestTenPower then tenPower? k >>= div? x
    else if x.isZero then some x
    else do
      let p ← tenPower? greatestTenPower
      let y ← div? x p
      divTenPower? steps y (k - greatestTenPower)

/-- The value read from a numeral `± significand · 10 ^ exponent`; `none` if the
numeral is too large to have one. -/
def ofDecimal? (negative : Bool) (significand : Nat) (exponent : Int) : Option Binary64 := do
  let x ← ofNat? significand
  let y ←
    if exponent < 0 then divTenPower? 4 x (-exponent).toNat
    else if exponent.toNat ≤ greatestTenPower then tenPower? exponent.toNat >>= mul? x
    else if x.isZero then some x
    else none
  return { y with negative := negative }

end Binary64

end TypeCatalog
