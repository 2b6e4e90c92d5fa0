import Stencil.Number.Binary64

/-!
# The shortest decimal of a binary number

`Shortest.digits` finds the decimal with the fewest digits that lies nearer to a number than to its
neighbours: for one digit, two digits, and so on it tests the two points of that decimal grid that
stand next to the number, in exact arithmetic. Of two hits the nearer one counts, and a tie goes to
the even last digit. `DecimalStyle` says how the digits are laid out.
-/

namespace Stencil

namespace Shortest

/-- A decimal `value * 10 ^ power`. -/
structure Decimal where
  value : Nat
  power : Int
deriving DecidableEq, Repr

/-- The closed or open interval of magnitudes that round to one significand, in units of a quarter
of its last place. -/
structure Interval where
  /-- Four times the significand. -/
  centre : Nat
  /-- The lower end: a half place below, a quarter under a power of two. -/
  low : Nat
  /-- The upper end, a half place above. -/
  high : Nat
  /-- The ends belong to it, since ties go to the even significand. -/
  closed : Bool

/-- The interval of a magnitude. -/
def interval (x : Binary64) : Interval :=
  let m := 4 * x.significand
  let tight := x.significand = Nat.pow 2 52 ∧ x.scale ≠ 0
  ⟨m, if tight then m - 1 else m - 2, m + 2, x.significand % 2 == 0⟩

/-- The point `num / den` lies in the interval. -/
def Interval.contains (i : Interval) (num den : Nat) : Bool :=
  if i.closed then i.low * den ≤ num && num ≤ i.high * den
  else i.low * den < num && num < i.high * den

/-- A grid of decimals seen from the units of an interval: the point `d` of the grid is
`d * up / down` units. -/
structure Grid where
  up : Nat
  down : Nat

/-- The grid of multiples of `10 ^ power` for magnitudes of a scale. -/
def gridOf (scale : Nat) (power : Int) : Grid :=
  -- a unit is 2 ^ (scale - 1076)
  let twoUp := 1076 - scale
  let twoDown := scale - 1076
  let tenUp := power.toNat
  let tenDown := (-power).toNat
  ⟨Nat.pow 10 tenUp <<< twoUp, Nat.pow 10 tenDown <<< twoDown⟩

/-- The better of the two neighbours on a grid, if one of them lies in the interval. -/
def onGrid (i : Interval) (g : Grid) : Option Nat :=
  let d := i.centre * g.down / g.up
  let lowHit := i.contains (d * g.up) g.down
  let highHit := i.contains ((d + 1) * g.up) g.down
  if lowHit && highHit then
    let below := i.centre * g.down - d * g.up
    let above := (d + 1) * g.up - i.centre * g.down
    if below < above then some d else if above < below then some (d + 1)
    else if d % 2 = 0 then some d else some (d + 1)
  else if lowHit then some d else if highHit then some (d + 1) else none

/-- The exponent of the leading decimal digit of a fraction. -/
def leading (num den : Nat) : Int :=
  let guess : Int := ((num.log2 : Int) - (den.log2 : Int)) * 1233 / 4096 - 1
  let atLeast (k : Int) : Bool := den * Nat.pow 10 k.toNat ≤ num * Nat.pow 10 (-k).toNat
  if atLeast (guess + 2) then guess + 2 else if atLeast (guess + 1) then guess + 1
  else if atLeast guess then guess else guess - 1

/-- Tries ever finer grids. -/
def search (i : Interval) (scale : Nat) (top : Int) : Nat → Nat → Decimal
  | 0, n => ⟨0, n⟩
  | fuel + 1, n =>
    let power := top - n
    match onGrid i (gridOf scale power) with
    | some d => ⟨d, power⟩
    | none => search i scale top fuel (n + 1)

/-- Drops the zeros at the end of a decimal, `fuel` at most. -/
def strip : Nat → Decimal → Decimal
  | 0, d => d
  | fuel + 1, d => if d.value % 10 = 0 ∧ d.value ≠ 0 then strip fuel ⟨d.value / 10, d.power + 1⟩ else d

/-- The shortest decimal of a magnitude that is not zero. -/
def decimal (x : Binary64) : Decimal :=
  let (a, b) := x.ratio
  strip 20 (search (interval x) x.scale (leading a b) 18 0)

end Shortest

/-- How the digits of a number are laid out. -/
structure DecimalStyle where
  /-- Magnitudes from `10 ^ least` on are positional. -/
  least : Option Int
  /-- Magnitudes from `10 ^ limit` on are not. -/
  limit : Option Int
  /-- An integer is written with a point and a zero. -/
  pointed : Bool

namespace DecimalStyle

/-- The digits with the point where it belongs; `lead` is the exponent of the first digit. -/
def positional (st : DecimalStyle) (digits : List Char) (lead : Int) : List Char :=
  if lead < 0 then '0' :: '.' :: (List.replicate (lead.natAbs - 1) '0' ++ digits)
  else
    let whole := lead.toNat + 1
    if digits.length ≤ whole then
      digits ++ List.replicate (whole - digits.length) '0' ++ (if st.pointed then ['.', '0'] else [])
    else digits.take whole ++ '.' :: digits.drop whole

/-- The digits with one of them before the point, and an exponent with its sign if it is positive. -/
def scientific (digits : List Char) (lead : Int) : List Char :=
  let mantissa := match digits with
    | [] => []
    | [d] => [d]
    | d :: rest => d :: '.' :: rest
  mantissa ++ 'e' :: (if lead < 0 then '-' else '+') :: Nat.toDigits 10 lead.natAbs

/-- The text of a number. -/
def text (st : DecimalStyle) (x : Binary64) : List Char :=
  let body :=
    if x.isZero then (if st.pointed then ['0', '.', '0'] else ['0'])
    else
      let d := Shortest.decimal x
      let digits := Nat.toDigits 10 d.value
      let lead := d.power + (digits.length : Int) - 1
      let below := st.least.any fun l => decide (lead < l)
      let above := st.limit.any fun l => decide (l ≤ lead)
      if below || above then scientific digits lead else st.positional digits lead
  if x.negative then '-' :: body else body

/-- The style of JSON text: positional from `1e-5` up to `1e16`, always with a point or an exponent. -/
def json : DecimalStyle := ⟨some (-5), some 16, true⟩

/-- The style of messages: positional throughout, an integer without a point. -/
def plain : DecimalStyle := ⟨none, none, false⟩

/-- The style of messages about a value of unexpected type: positional throughout, with a point. -/
def pointedPlain : DecimalStyle := ⟨none, none, true⟩

end DecimalStyle

end Stencil
