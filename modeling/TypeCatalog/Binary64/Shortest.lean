/-
The shortest decimal numeral of a floating-point number.

Every number owns an interval: the reals that round to it, its ends included
when the mantissa is even.  For one, two, … seventeen digits the search takes
the two neighbours of the number on that decimal grid; the first grid on which
one of them lies in the interval gives the digits, and of two that do the
nearer one wins.

Where exponents begin, whether a whole number shows a fraction, and which way a
tie goes is a `Layout`; the search does not know about it.
-/
import TypeCatalog.Binary64

namespace TypeCatalog

namespace Binary64

/-- A way of writing decimal numerals. -/
structure Layout where
  /-- The decimal exponents of the leading digit that are written without an
  exponent part; `none` writes all of them so. -/
  plainExponents : Option (Int × Int)
  /-- Whether a whole number is written with a fraction of one zero. -/
  showsZeroFraction : Bool
  /-- Whether a number half-way between two shortest numerals takes the upper
  one; otherwise it takes the one with the even last digit. -/
  tiesGoUp : Bool

/-- A numeral `0.d₁d₂… · 10 ^ point`, its digits without a trailing zero. -/
structure Numeral where
  digits : List Char
  point : Int

/-- How often `num` has to be multiplied by ten to reach `den`, up to a bound. -/
def tensBelow : Nat → Nat → Nat → Nat
  | 0, _, _ => 0
  | bound + 1, num, den => if den ≤ num then 0 else tensBelow bound (num * 10) den + 1

/-- The number `p` with `10 ^ (p - 1) ≤ num / den < 10 ^ p`. -/
def pointOf (num den : Nat) : Int :=
  if den ≤ num then ((Nat.toDigits 10 (num / den)).length : Int)
  else 1 - (tensBelow 350 num den : Int)

/-- The number on the decimal grid of step `10 ^ power` that stands for `x`, as
a multiple of the step; `none` if no point of the grid rounds to `x`. -/
def onGrid (tiesGoUp : Bool) (x : Binary64) (power : Int) : Option Nat :=
  -- a quarter of the unit of the last bit is `a / b` steps of the grid
  let a := Nat.pow 2 (x.exponent - 2).toNat * Nat.pow 10 (-power).toNat
  let b := Nat.pow 2 (2 - x.exponent).toNat * Nat.pow 10 power.toNat
  let value := 4 * x.mantissa * a
  -- right below a power of two, the numbers lie twice as close
  let below := if x.mantissa = Nat.pow 2 52 ∧ leastExponent < x.exponent then 1 else 2
  let low := (4 * x.mantissa - below) * a
  let high := (4 * x.mantissa + 2) * a
  let even := x.mantissa % 2 == 0
  let inside := fun d : Nat =>
    (decide (low < d * b) || even && low == d * b)
      && (decide (d * b < high) || even && d * b == high)
  let d := value / b
  match inside d, inside (d + 1) with
  | false, false => none
  | true, false => some d
  | false, true => some (d + 1)
  | true, true =>
    -- both neighbours round to `x`, so the nearer one stands for it
    let twice := 2 * (value % b)
    if twice < b then some d
    else if b < twice then some (d + 1)
    else if tiesGoUp then some (d + 1)
    else some (d + d % 2)

/-- Tries grids of ever more digits, as many as `tries`. -/
def searchGrids (tiesGoUp : Bool) (x : Binary64) (point : Int) : Nat → Nat → Option (Nat × Int)
  | 0, _ => none
  | tries + 1, count =>
    let power := point - count
    match onGrid tiesGoUp x power with
    | some d => some (d, power)
    | none => searchGrids tiesGoUp x point tries (count + 1)

/-- The list without the zeros at its end. -/
def dropZeros (digits : List Char) : List Char :=
  (digits.reverse.dropWhile (· == '0')).reverse

/-- The shortest numeral of a magnitude other than zero. -/
def shortest (tiesGoUp : Bool) (x : Binary64) : Numeral :=
  let (num, den) := x.toQuotient
  match searchGrids tiesGoUp x (pointOf num den) 17 1 with
  | some (d, power) =>
    let digits := Nat.toDigits 10 d
    ⟨dropZeros digits, power + digits.length⟩
  | none => ⟨[], 0⟩

/-- The digits with the point in its place. -/
def Numeral.plain (layout : Layout) (n : Numeral) : List Char :=
  let count : Int := n.digits.length
  if n.point ≤ 0 then '0' :: '.' :: (List.replicate (-n.point).toNat '0' ++ n.digits)
  else if n.point < count then
    n.digits.take n.point.toNat ++ '.' :: n.digits.drop n.point.toNat
  else
    n.digits ++ List.replicate (n.point - count).toNat '0'
      ++ (if layout.showsZeroFraction then ['.', '0'] else [])

/-- One digit before the point, and a power of ten with its sign. -/
def Numeral.scaled (n : Numeral) : List Char :=
  let power := n.point - 1
  let sign := if power < 0 then '-' else '+'
  let head := match n.digits with
    | [] => []
    | [d] => [d]
    | d :: rest => d :: '.' :: rest
  head ++ 'e' :: sign :: Nat.toDigits 10 power.natAbs

/-- The text of a number. -/
def render (layout : Layout) (x : Binary64) : List Char :=
  let magnitude :=
    if x.isZero then if layout.showsZeroFraction then ['0', '.', '0'] else ['0']
    else
      let n := x.shortest layout.tiesGoUp
      match layout.plainExponents with
      | none => n.plain layout
      | some (least, greatest) =>
        if least ≤ n.point - 1 ∧ n.point - 1 ≤ greatest then n.plain layout else n.scaled
  if x.negative then '-' :: magnitude else magnitude

/-- Numbers inside data: whole numbers keep a fraction, and exponents stand
below `10 ^ -5` and from `10 ^ 16` on. -/
def Layout.data : Layout := ⟨some (-5, 15), true, false⟩

/-- Numbers shown to people: never an exponent, and no fraction on a whole number. -/
def Layout.display : Layout := ⟨none, false, true⟩

end Binary64

end TypeCatalog
