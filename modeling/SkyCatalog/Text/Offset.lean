/-!
# Byte offsets into a text

Positions in a text are counted in bytes of its UTF-8 form. An offset may fall
inside a character or past the end; the partial functions here refuse both, so a
cut that succeeds is always a cut between two characters.
-/

namespace SkyCatalog.Text

/-- Number of bytes a text occupies in UTF-8. -/
def byteLength : List Char → Nat
  | [] => 0
  | c :: rest => c.utf8Size + byteLength rest

theorem byteLength_append (a b : List Char) :
    byteLength (a ++ b) = byteLength a + byteLength b := by
  induction a with
  | nil => simp [byteLength]
  | cons c rest ih => simp [byteLength, ih, Nat.add_assoc]

/-- The text after its first `n` bytes, if they end between two characters. -/
def dropBytes? (n : Nat) : List Char → Option (List Char)
  | [] => if n = 0 then some [] else none
  | c :: rest =>
      if n = 0 then some (c :: rest)
      else if c.utf8Size ≤ n then dropBytes? (n - c.utf8Size) rest
      else none

/-- The first `n` bytes of a text, if they end between two characters. -/
def takeBytes? (n : Nat) : List Char → Option (List Char)
  | [] => if n = 0 then some [] else none
  | c :: rest =>
      if n = 0 then some []
      else if c.utf8Size ≤ n then (takeBytes? (n - c.utf8Size) rest).map (c :: ·)
      else none

/-- The text between two offsets, if both fall between characters and are in order. -/
def slice? (start stop : Nat) (cs : List Char) : Option (List Char) :=
  if start ≤ stop then dropBytes? start cs >>= takeBytes? (stop - start) else none

end SkyCatalog.Text
