/-!
# The place of an identifier among all identifiers

Identifiers that begin with hexadecimal digits are spread over a range of sixty-four
bits: the first sixteen characters, dashes aside, are read as a number, and missing
digits count as zeros. How far that number lies in the range tells roughly how far a
pass has come.
-/

namespace SkyCatalog.Cursor

/-- The value of a hexadecimal digit. -/
def hexValue? (c : Char) : Option Nat :=
  if c.isDigit then some (c.toNat - '0'.toNat)
  else if 'a' ≤ c ∧ c ≤ 'f' then some (c.toNat - 'a'.toNat + 10)
  else if 'A' ≤ c ∧ c ≤ 'F' then some (c.toNat - 'A'.toNat + 10)
  else none

/-- The characters of an identifier that its place is read from. -/
def leading (id : String) : List Char :=
  (id.toList.filter (· ≠ '-')).take 16

/-- A number of sixty-four bits with one more hexadecimal digit at its end, unless that
is beyond the range. -/
def appendDigit? (n digit : Nat) : Option Nat :=
  let longer := 16 * n + digit
  if longer < Nat.pow 2 64 then some longer else none

/-- The number of sixty-four bits that hexadecimal digits denote, unless it is beyond the
range. -/
def ofHexDigits? (digits : List Nat) : Option Nat :=
  digits.foldlM appendDigit? 0

/-- The place of an identifier in the range of sixty-four bits. -/
def position? (id : String) : Option Nat :=
  let characters := leading id
  if characters.isEmpty then none
  else ((characters.rightpad 16 '0').mapM hexValue?).bind ofHexDigits?

/-- The place of an identifier as a part of the whole range: divided by the greatest number of
sixty-four bits. -/
def fraction? (id : String) : Option Float :=
  (position? id).map fun n => Float.ofNat n / Float.ofNat (Nat.pow 2 64 - 1)

end SkyCatalog.Cursor
