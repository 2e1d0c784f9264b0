import SkyCatalog.Decimal.Binary

/-!
# The fewest digits that read back

The reals that round to a finite double form an interval around it, closed if its
significand is even. A decimal `d · 10 ^ k` reads back as the double when it lies
in that interval. `shortest` takes the largest `k` for which one of the two
multiples of `10 ^ k` around the double reads back, hence the fewest digits, and
of two such multiples the nearer one.

All comparisons are between natural numbers: both sides are multiplied up until no
negative power is left.
-/

namespace SkyCatalog.Decimal

/-- Which of two equally near decimals is taken. -/
inductive Tie where
  /-- The one with the even last digit. -/
  | toEven
  /-- The larger one. -/
  | up
deriving DecidableEq, Repr

/-- The decimal `coefficient · 10 ^ exponent`. -/
structure Scientific where
  coefficient : Nat
  exponent : Int
deriving DecidableEq, Repr

/-- The interval of reals that round to `significand · 2 ^ exponent`, in quarters of
`2 ^ exponent`. Below a power of two the doubles lie twice as close. -/
structure Interval where
  low : Nat
  value : Nat
  high : Nat
  closed : Bool
  exponent : Int
deriving DecidableEq, Repr

/-- The interval of the double with this significand and exponent. -/
def Interval.around (significand : Nat) (exponent : Int) : Interval where
  low := 4 * significand - (if significand = Nat.pow 2 52 ∧ -1074 < exponent then 1 else 2)
  value := 4 * significand
  high := 4 * significand + 2
  closed := significand % 2 = 0
  exponent := exponent - 2

/-- Scale of the binary side when it is compared with multiples of `10 ^ k`. -/
def Interval.binaryScale (i : Interval) (k : Int) : Nat :=
  Nat.pow 2 i.exponent.toNat * Nat.pow 10 (-k).toNat

/-- Scale of the decimal side in the same comparison. -/
def Interval.decimalScale (i : Interval) (k : Int) : Nat :=
  Nat.pow 10 k.toNat * Nat.pow 2 (-i.exponent).toNat

/-- Does `d · 10 ^ k` lie in the interval? -/
def Interval.holds (i : Interval) (k : Int) (d : Nat) : Bool :=
  let low := i.low * i.binaryScale k
  let high := i.high * i.binaryScale k
  let here := d * i.decimalScale k
  if i.closed then low ≤ here && here ≤ high else low < here && here < high

/-- The multiple of `10 ^ k` that stands for the interval, if one reads back. -/
def Interval.onGrid? (i : Interval) (tie : Tie) (k : Int) : Option Nat :=
  let exact := i.value * i.binaryScale k
  let step := i.decimalScale k
  let below := exact / step
  let above := below + 1
  let belowFits := below ≠ 0 && i.holds k below
  if belowFits && i.holds k above then
    let gap := 2 * (exact - below * step)
    if gap < step then some below
    else if step < gap then some above
    else
      match tie with
      | .toEven => if below % 2 = 0 then some below else some above
      | .up => some above
  else if belowFits then some below
  else if i.holds k above then some above
  else none

/-- Try the grids `10 ^ k`, `10 ^ (k - 1)`, … in turn. -/
def Interval.search (i : Interval) (tie : Tie) : Nat → Int → Scientific
  | 0, k => ⟨0, k⟩
  | steps + 1, k =>
      match i.onGrid? tie k with
      | some d => ⟨d, k⟩
      | none => i.search tie steps (k - 1)

/-- The shortest decimal that reads back as `significand · 2 ^ exponent`. The search
starts above the value, by an estimate of its decimal logarithm, and seventeen
digits always suffice. -/
def shortest (tie : Tie) (significand : Nat) (exponent : Int) : Scientific :=
  let magnitude := (exponent + significand.log2) * 30103 / 100000
  (Interval.around significand exponent).search tie 24 (magnitude + 2)

end SkyCatalog.Decimal
