/-!
# Doubles as integers times powers of two

A finite double is `± significand · 2 ^ exponent`, exactly. Read this way, the
questions below are questions about natural numbers: is the value a whole number,
what is its remainder by a whole period, and where does it stand in the total
order of doubles.
-/

namespace SkyCatalog.Decimal

/-- The value `± significand · 2 ^ exponent`. -/
structure Binary where
  negative : Bool
  significand : Nat
  exponent : Int
deriving DecidableEq, Repr

namespace Binary

/-- The exact value of a finite double; none for an infinity or NaN. A double with
the least exponent is subnormal and has no implicit leading bit. -/
def ofFloat? (x : Float) : Option Binary :=
  let bits : Nat := x.toBits.toNat
  let biased : Nat := bits / Nat.pow 2 52 % Nat.pow 2 11
  let fraction : Nat := bits % Nat.pow 2 52
  if biased = 2047 then none
  else if biased = 0 then some ⟨bits / Nat.pow 2 63 = 1, fraction, -1074⟩
  else some ⟨bits / Nat.pow 2 63 = 1, Nat.pow 2 52 + fraction, (biased : Int) - 1075⟩

/-- The double with this value. The significand must fit fifty-three bits and the
exponent be that of a double, so that nothing is rounded. -/
def toFloat (b : Binary) : Float :=
  let top := b.significand.log2
  let sign := if b.negative then Nat.pow 2 63 else 0
  let magnitude :=
    if b.significand = 0 then 0
    else if b.exponent + top < -1022 then b.significand * Nat.pow 2 (b.exponent + 1074).toNat
    else
      (b.exponent + top + 1023).toNat * Nat.pow 2 52 +
        (b.significand * Nat.pow 2 (52 - top) - Nat.pow 2 52)
  Float.ofBits (UInt64.ofNat (sign + magnitude))

/-- The whole number that this value is, if it is one. -/
def toInt? (b : Binary) : Option Int :=
  let signed (n : Nat) : Int := if b.negative then -n else n
  if 0 ≤ b.exponent then some (signed (b.significand * Nat.pow 2 b.exponent.toNat))
  else
    let unit := Nat.pow 2 (-b.exponent).toNat
    if b.significand % unit = 0 then some (signed (b.significand / unit)) else none

/-- The remainder of the magnitude by a whole period, with the sign of the value. -/
def remainder (b : Binary) (period : Nat) : Binary :=
  if 0 ≤ b.exponent then
    ⟨b.negative, b.significand * Nat.pow 2 b.exponent.toNat % period, 0⟩
  else
    ⟨b.negative, b.significand % (period * Nat.pow 2 (-b.exponent).toNat), b.exponent⟩

end Binary

/-- The whole number that a double is, if it is one. -/
def integer? (x : Float) : Option Int :=
  Binary.ofFloat? x >>= Binary.toInt?

/-- The remainder of a finite double by a whole period, with the sign of the double. -/
def remainder (x : Float) (period : Nat) : Float :=
  match Binary.ofFloat? x with
  | some b => (b.remainder period).toFloat
  | none => 0.0 / 0.0

/-- The place of a double in the total order that refines `≤`: negative zero stands
just below zero, the infinities and NaN stand outside the finite values. -/
def totalKey (x : Float) : Int :=
  let bits : Nat := x.toBits.toNat
  if bits < Nat.pow 2 63 then bits else (Nat.pow 2 63 : Int) - 1 - bits

/-- The least of a list of doubles in the total order. -/
def least? : List Float → Option Float
  | [] => none
  | x :: rest =>
      match least? rest with
      | none => some x
      | some y => if totalKey x ≤ totalKey y then some x else some y

end SkyCatalog.Decimal
