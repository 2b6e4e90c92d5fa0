/-!
# Binary floating-point numbers

A `Binary64` is a sign and a magnitude `significand * 2 ^ (scale - 1074)`. Arithmetic is exact
arithmetic on natural numbers followed by one rounding, `roundRatio`, to the nearest magnitude, a
tie going to the even significand. There is no infinity and no NaN: an operation whose result
leaves the range answers `none`.
-/

namespace Stencil

/-- A finite double-precision number: `significand * 2 ^ (scale - 1074)` with a sign. -/
structure Binary64 where
  /-- The sign; zero has one too. -/
  negative : Bool
  /-- The significand, below `2 ^ 53`. -/
  significand : Nat
  /-- The power of two above the least one, at most `2045`. -/
  scale : Nat
deriving DecidableEq, Repr, Inhabited

namespace Binary64

/-- One spelling per number: a significand below `2 ^ 52` occurs at the least scale only. -/
def Canonical (x : Binary64) : Prop :=
  x.significand < Nat.pow 2 53 ∧ x.scale ≤ 2045 ∧ (Nat.pow 2 52 ≤ x.significand ∨ x.scale = 0)

instance (x : Binary64) : Decidable x.Canonical := by unfold Canonical; infer_instance

/-- Zero of a sign. -/
def zero (negative : Bool) : Binary64 := ⟨negative, 0, 0⟩

/-- The number with the other sign. -/
def neg (x : Binary64) : Binary64 := { x with negative := !x.negative }

def isZero (x : Binary64) : Bool := x.significand == 0

/-- The quotient rounded to a natural number, a tie going to the even one. -/
def roundDiv (num den : Nat) : Nat :=
  let q := num / den
  let r := num % den
  if 2 * r < den then q else if den < 2 * r then q + 1 else if q % 2 = 0 then q else q + 1

/-- The least scale at which `num / den` (in units of `2 ^ -1074`) has a quotient below `2 ^ 53`. -/
def scaleFor (num den : Nat) : Nat :=
  let guess := (num.log2 - den.log2) - 53
  if num / (den <<< guess) < Nat.pow 2 53 then guess
  else if num / (den <<< (guess + 1)) < Nat.pow 2 53 then guess + 1 else guess + 2

/-- The magnitude nearest to `num / den`; none if it is out of range. -/
def roundRatio (negative : Bool) (num den : Nat) : Option Binary64 :=
  let units := num <<< 1074
  let scale := scaleFor units den
  let s := roundDiv units (den <<< scale)
  let x : Binary64 := if s = Nat.pow 2 53 then ⟨negative, Nat.pow 2 52, scale + 1⟩ else ⟨negative, s, scale⟩
  if x.scale ≤ 2045 then some x else none

/-- The number nearest to an integer; none if it is out of range. -/
def ofInt? (i : Int) : Option Binary64 := roundRatio (decide (i < 0)) i.natAbs 1

/-- The number nearest to an integer of at most 64 bits, which is always in range. -/
def ofInt (i : Int) : Binary64 := (ofInt? i).getD (zero false)

/-- The magnitude as a fraction of natural numbers. -/
def ratio (x : Binary64) : Nat × Nat :=
  if 1074 ≤ x.scale then (x.significand <<< (x.scale - 1074), 1)
  else (x.significand, 1 <<< (1074 - x.scale))

/-- The rounded product. -/
def mul (x y : Binary64) : Option Binary64 :=
  let (a, b) := x.ratio
  let (c, d) := y.ratio
  roundRatio (x.negative != y.negative) (a * c) (b * d)

/-- The rounded quotient; none for a divisor of zero. -/
def div (x y : Binary64) : Option Binary64 :=
  let (a, b) := x.ratio
  let (c, d) := y.ratio
  if c = 0 then none else roundRatio (x.negative != y.negative) (a * d) (b * c)

/-- The number nearest to a power of ten. -/
def powerOfTen (n : Nat) : Option Binary64 := roundRatio false (Nat.pow 10 n) 1

/-- A decimal significand with a decimal exponent. The significand is rounded first and then
multiplied or divided once by a rounded power of ten; below `10 ^ -308` the division by `10 ^ 308`
is repeated, `fuel` times at most. -/
def scaleByTen : Nat → Binary64 → Int → Option Binary64
  | 0, x, _ => some x
  | fuel + 1, x, e =>
    if e.natAbs ≤ 308 then
      if 0 ≤ e then (powerOfTen e.natAbs).bind x.mul else (powerOfTen e.natAbs).bind x.div
    else if x.isZero then some x
    else if 0 ≤ e then none
    else ((powerOfTen 308).bind x.div).bind fun y => scaleByTen fuel y (e + 308)

/-- The reading of `significand * 10 ^ e` for a significand of 64 bits. -/
def ofDecimal (significand : Nat) (e : Int) : Option Binary64 :=
  (ofInt? significand).bind fun x => scaleByTen 8 x e

/-- The number is an integer. -/
def isInteger (x : Binary64) : Bool :=
  let (a, b) := x.ratio
  a % b == 0

/-- The order of two numbers, the two zeros being equal. -/
def compare (x y : Binary64) : Ordering :=
  let (a, b) := x.ratio
  let (c, d) := y.ratio
  let l : Int := if x.negative then -((a * d : Nat) : Int) else ((a * d : Nat) : Int)
  let r : Int := if y.negative then -((c * b : Nat) : Int) else ((c * b : Nat) : Int)
  Ord.compare l r

/-- The order of an integer and a number, without rounding the integer. -/
def compareInt (i : Int) (x : Binary64) : Ordering :=
  let (a, b) := x.ratio
  let r : Int := if x.negative then -(a : Int) else (a : Int)
  Ord.compare (i * (b : Int)) r

end Binary64

end Stencil
