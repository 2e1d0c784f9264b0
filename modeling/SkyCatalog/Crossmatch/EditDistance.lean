/-!
# Edit distance

The least number of insertions, deletions and substitutions of single characters that
turn one text into another. It is computed row by row: the row of a beginning of the
first text holds its distance from every beginning of the second, the empty one first.
Only two rows are kept. The row of the next beginning is written over the older one,
from the front to the back, and then the two change places.
-/

namespace SkyCatalog

/-- The last finished row, and the one that is being written. -/
structure Rows where
  previous : Array Nat
  current : Array Nat

namespace Rows

/-- The row of the empty text for a text of `n` characters, and a place for the next. -/
def start (n : Nat) : Rows :=
  ⟨Array.range (n + 1), Array.replicate (n + 1) 0⟩

/-- Write an entry. -/
def write (rows : Rows) (j value : Nat) : Rows :=
  { rows with current := rows.current.setIfInBounds j value }

/-- The entry behind the one at `j`, where the texts end in `c` and in `d`. -/
def entry (rows : Rows) (c d : Char) (j : Nat) : Nat :=
  min (min (rows.previous.getD (j + 1) 0 + 1) (rows.current.getD j 0 + 1))
    (rows.previous.getD j 0 + if c = d then 0 else 1)

/-- Write the entries behind the one at `j`, where the first text ends in `c` and the second goes
on with the characters given. -/
def fill (c : Char) (rows : Rows) (j : Nat) : List Char → Rows
  | [] => rows
  | d :: rest => fill c (rows.write (j + 1) (rows.entry c d j)) (j + 1) rest

/-- Finish the row of a text of `i` characters and then `c`. -/
def next (bs : List Char) (rows : Rows) (i : Nat) (c : Char) : Rows :=
  let filled := fill c (rows.write 0 (i + 1)) 0 bs
  ⟨filled.current, filled.previous⟩

/-- Finish the rows of a text of `i` characters that goes on with the characters given. -/
def run (bs : List Char) (rows : Rows) (i : Nat) : List Char → Rows
  | [] => rows
  | c :: rest => run bs (rows.next bs i c) (i + 1) rest

end Rows

/-- The distance of two lists of characters. -/
def listDistance (as bs : List Char) : Nat :=
  if as.isEmpty then bs.length
  else if bs.isEmpty then as.length
  else ((Rows.start bs.length).run bs 0 as).previous.getD bs.length 0

/-- The distance of two texts. -/
def editDistance (a b : String) : Nat :=
  listDistance a.toList b.toList

end SkyCatalog
