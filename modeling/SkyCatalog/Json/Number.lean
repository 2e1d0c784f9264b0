import SkyCatalog.Json.Value

/-!
# Reading JSON numbers

A number written without fraction and exponent stays a whole number while it fits
sixty-four bits; minus zero and everything else becomes a double. The digits of a
double are gathered in a significand of sixty-four bits, digits beyond that only
count towards the exponent, and the significand is then scaled by a power of ten.
A numeral whose scaled value is infinite denotes no number.
-/

namespace SkyCatalog.Json

/-- The parts of a written number. -/
structure Numeral where
  negative : Bool
  whole : List Char
  fraction : List Char
  exponent : Option Int
deriving DecidableEq, Repr

/-- A significand of sixty-four bits and the power of ten it is scaled by. -/
structure Gathered where
  significand : Nat
  exponent : Int
  full : Bool
deriving DecidableEq, Repr

namespace Gathered

/-- Take in one digit; `place` is the power of ten lost when the digit is kept, and
`beyond` the one gained when it is not. -/
def digit (place beyond : Int) (g : Gathered) (c : Char) : Gathered :=
  let next := 10 * g.significand + (c.toNat - '0'.toNat)
  if g.full || Decimal.maxNat64 < next then ⟨g.significand, g.exponent + beyond, true⟩
  else ⟨next, g.exponent - place, false⟩

/-- The significand of the digits before and after the point. -/
def ofDigits (whole fraction : List Char) : Gathered :=
  let front := whole.foldl (digit 0 1) ⟨0, 0, false⟩
  fraction.foldl (digit 1 0) ⟨front.significand, front.exponent, false⟩

end Gathered

/-- The double `10 ^ n`. -/
def powerOfTen (n : Nat) : Float :=
  Float.ofScientific 1 false n

/-- Scale a significand by a power of ten, in one step where the power is a double
and in two where it is too small for that; none if the result is infinite. -/
def scale? (significand : Nat) (exponent : Int) : Option Float :=
  let x := Float.ofNat significand
  if significand = 0 then some 0.0
  else if 308 < exponent then none
  else if 0 ≤ exponent then
    let y := x * powerOfTen exponent.toNat
    if y.isFinite then some y else none
  else if -308 ≤ exponent then some (x / powerOfTen (-exponent).toNat)
  else if -616 ≤ exponent then some (x / powerOfTen 308 / powerOfTen (-exponent - 308).toNat)
  else some 0.0

/-- The double that a numeral denotes, if it is finite. -/
def Numeral.toFloat? (n : Numeral) : Option Float :=
  let g := Gathered.ofDigits n.whole n.fraction
  (scale? g.significand (g.exponent + n.exponent.getD 0)).map fun x =>
    if n.negative then -x else x

/-- The value that a numeral denotes, if it denotes one. -/
def Numeral.toJson? (n : Numeral) : Option Json :=
  let magnitude := Decimal.ofDigits n.whole
  let signed : Int := if n.negative then -(magnitude : Int) else magnitude
  if n.fraction.isEmpty && n.exponent.isNone && !(n.negative && magnitude = 0) &&
      Decimal.minInt64 ≤ signed && signed ≤ Decimal.maxNat64 then
    some (.int signed)
  else n.toFloat?.map .real

/-- Read the fraction: a point needs a digit after it. -/
def fractionAt? : List Char → Option (List Char × List Char)
  | '.' :: rest =>
      let digits := rest.takeWhile Char.isDigit
      if digits.isEmpty then none else some (digits, rest.dropWhile Char.isDigit)
  | cs => some ([], cs)

/-- Read the exponent: its mark needs a digit after it, with or without a sign. -/
def exponentAt? : List Char → Option (Option Int × List Char)
  | [] => some (none, [])
  | c :: rest =>
      if c = 'e' ∨ c = 'E' then
        let (negative, after) := Decimal.takeSign rest
        let digits := after.takeWhile Char.isDigit
        if digits.isEmpty then none
        else
          let n : Int := Decimal.ofDigits digits
          some (some (if negative then -n else n), after.dropWhile Char.isDigit)
      else some (none, c :: rest)

/-- Read the digits before the point: a leading zero stands alone. -/
def wholeAt? : List Char → Option (List Char × List Char)
  | '0' :: rest => some (['0'], rest)
  | cs =>
      let digits := cs.takeWhile Char.isDigit
      if digits.isEmpty then none else some (digits, cs.dropWhile Char.isDigit)

/-- Read the numeral at the front of a text. -/
def numeralAt? (cs : List Char) : Option (Numeral × List Char) := do
  let (negative, unsigned) :=
    match cs with
    | '-' :: rest => (true, rest)
    | _ => (false, cs)
  let (whole, afterWhole) ← wholeAt? unsigned
  let (fraction, afterFraction) ← fractionAt? afterWhole
  let (exponent, rest) ← exponentAt? afterFraction
  return (⟨negative, whole, fraction, exponent⟩, rest)

end SkyCatalog.Json
