import SkyCatalog.Text.LetterCase

/-!
# Small letters

The small form of a text, character by character. Two characters need more than the
table: the capital I with a dot becomes an i with a combining dot, and the capital
sigma becomes the final sigma where it ends a word, that is after a letter and not
before one, characters that are passed over aside.
-/

namespace SkyCatalog.Text

/-- The small form of a character that has a single one, else the character. -/
def lowerChar (c : Char) : Char :=
  if c.toNat < 0x80 then c.toLower
  else
    match capitalRanges.find? (·.contains c.toNat) with
    | some r => Char.ofNat (c.toNat + r.offset).toNat
    | none => c

/-- Is a character passed over at the end of a word? -/
def isIgnorable (c : Char) : Bool :=
  inRanges ignorableRanges c.toNat

/-- Does a letter come next, ignorable characters aside? -/
def startsCased (cs : List Char) : Bool :=
  match cs.dropWhile isIgnorable with
  | c :: _ => inRanges casedRanges c.toNat
  | [] => false

/-- The small form of the characters `rest` that stand after the characters `before`,
which are listed from the last to the first. -/
def lowerFrom (before : List Char) (rest : List Char) : List Char :=
  match rest with
  | [] => []
  | c :: rest =>
      let small :=
        if c = 'Σ' then [if startsCased before && !startsCased rest then 'ς' else 'σ']
        else if c = 'İ' then ['i', '\u0307']
        else [lowerChar c]
      small ++ lowerFrom (c :: before) rest

/-- The small form of a text. -/
def lower (s : String) : String :=
  String.ofList (lowerFrom [] s.toList)

end SkyCatalog.Text
