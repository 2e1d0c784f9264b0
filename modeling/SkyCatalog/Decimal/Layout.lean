import SkyCatalog.Decimal.Shortest

/-!
# Writing doubles

A double is written with the fewest digits that read back. What is left to decide
is the layout: which exponents are written in place, whether a whole number keeps a
fraction, and how the exponent looks. `Layout` is the record of these decisions and
`Layout.render` carries them out.
-/

namespace SkyCatalog.Decimal

/-- The decisions of one written form of doubles. -/
structure Layout where
  /-- Exponents of the leading digit that are written without an exponent part. -/
  inPlace : Int → Bool
  /-- Does a whole number end in `.0`? -/
  keepsFraction : Bool
  /-- The choice between two equally near decimals. -/
  tie : Tie

/-- Digits without an exponent part, the point after the leading `whole` of them. -/
def placePoint (digits : List Char) (whole : Int) (keepsFraction : Bool) : List Char :=
  if whole ≤ 0 then
    '0' :: '.' :: (List.replicate (-whole).toNat '0' ++ digits)
  else
    let n := whole.toNat
    let front := digits.take n ++ List.replicate (n - digits.length) '0'
    let back := digits.drop n
    if back.isEmpty then
      front ++ (if keepsFraction then ['.', '0'] else [])
    else front ++ '.' :: back

/-- Digits with an exponent part; the exponent carries its sign. -/
def withExponent (digits : List Char) (exponent : Int) : List Char :=
  let leading :=
    match digits with
    | first :: second :: rest => first :: '.' :: second :: rest
    | few => few
  let sign := if exponent < 0 then '-' else '+'
  leading ++ 'e' :: sign :: Nat.toDigits 10 exponent.natAbs

namespace Layout

/-- The written form of a positive decimal. -/
def magnitude (layout : Layout) (s : Scientific) : List Char :=
  let digits := Nat.toDigits 10 s.coefficient
  let leading := s.exponent + digits.length - 1
  if layout.inPlace leading then placePoint digits (leading + 1) layout.keepsFraction
  else withExponent digits leading

/-- The written form of a finite value. -/
def finite (layout : Layout) (b : Binary) : List Char :=
  let sign := if b.negative then ['-'] else []
  if b.significand = 0 then sign ++ (if layout.keepsFraction then ['0', '.', '0'] else ['0'])
  else sign ++ layout.magnitude (shortest layout.tie b.significand b.exponent)

/-- The written form of a double. -/
def render (layout : Layout) (x : Float) : String :=
  match Binary.ofFloat? x with
  | some b => String.ofList (layout.finite b)
  | none => if x.isNaN then "NaN" else if x < 0.0 then "-inf" else "inf"

end Layout

/-- Digits and a point only: no exponent part, and no fraction on whole numbers. -/
def plain : Layout where
  inPlace := fun _ => true
  keepsFraction := false
  tie := .up

/-- The plain form of a double. -/
def plainText (x : Float) : String :=
  plain.render x

end SkyCatalog.Decimal
