/-!
# Reading numbers from text

A number is an optional sign followed by `inf`, `infinity` or `nan` in any case, or
by digits with an optional point and an optional exponent. At least one digit must
stand before or after the point, and one in the exponent. Nothing may surround the
number. The value is the double nearest to what is written.

Whole numbers of sixty-four bits are read by a rule of their own: a sign and digits.
-/

namespace SkyCatalog.Decimal

/-- The number that a run of digits denotes. -/
def ofDigits (digits : List Char) : Nat :=
  digits.foldl (fun n c => 10 * n + (c.toNat - '0'.toNat)) 0

/-- A number as it is written: `± mantissa · 10 ^ exponent`. -/
structure Literal where
  mantissa : Nat
  exponent : Int
deriving DecidableEq, Repr

/-- The double nearest to a literal. Exponents far outside the range of doubles are
settled without computing the power. -/
def Literal.toFloat (l : Literal) : Float :=
  let leading := l.exponent + (Nat.toDigits 10 l.mantissa).length
  if l.mantissa = 0 then 0.0
  else if 400 < leading then 1.0 / 0.0
  else if leading < -400 then 0.0
  else Float.ofScientific l.mantissa (l.exponent < 0) l.exponent.natAbs

/-- Take a sign off the front; true for a minus. -/
def takeSign : List Char → Bool × List Char
  | '+' :: rest => (false, rest)
  | '-' :: rest => (true, rest)
  | cs => (false, cs)

/-- Read the exponent part that ends a number. -/
def exponentPart? : List Char → Option Int
  | [] => some 0
  | mark :: rest =>
      if mark = 'e' ∨ mark = 'E' then
        let (negative, digits) := takeSign rest
        if digits.isEmpty || !digits.all Char.isDigit then none
        else some (if negative then -(ofDigits digits : Int) else ofDigits digits)
      else none

/-- Read a number without a sign. -/
def literal? (cs : List Char) : Option Literal :=
  let whole := cs.takeWhile Char.isDigit
  let afterWhole := cs.dropWhile Char.isDigit
  let (fraction, afterFraction) :=
    match afterWhole with
    | '.' :: rest => (rest.takeWhile Char.isDigit, rest.dropWhile Char.isDigit)
    | other => ([], other)
  if whole.isEmpty && fraction.isEmpty then none
  else
    (exponentPart? afterFraction).map fun exponent =>
      ⟨ofDigits (whole ++ fraction), exponent - fraction.length⟩

/-- Read the magnitude of a number, special values included. -/
def magnitude? (cs : List Char) : Option Float :=
  let word := cs.map Char.toLower
  if word = "inf".toList ∨ word = "infinity".toList then some (1.0 / 0.0)
  else if word = "nan".toList then some (0.0 / 0.0)
  else (literal? cs).map Literal.toFloat

/-- Read a double. -/
def readFloat? (s : String) : Option Float :=
  let (negative, rest) := takeSign s.toList
  (magnitude? rest).map fun x => if negative then -x else x

/-- The least whole number of sixty-four bits. -/
def minInt64 : Int := -Nat.pow 2 63

/-- The greatest whole number of sixty-four bits. -/
def maxInt64 : Int := Nat.pow 2 63 - 1

/-- The greatest natural number of sixty-four bits. -/
def maxNat64 : Nat := Nat.pow 2 64 - 1

/-- Read a whole number of sixty-four bits. -/
def readInt64? (s : String) : Option Int :=
  let (negative, digits) := takeSign s.toList
  if digits.isEmpty || !digits.all Char.isDigit then none
  else
    let n : Int := if negative then -(ofDigits digits : Int) else ofDigits digits
    if minInt64 ≤ n ∧ n ≤ maxInt64 then some n else none

end SkyCatalog.Decimal
