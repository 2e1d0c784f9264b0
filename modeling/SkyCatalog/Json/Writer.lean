import SkyCatalog.Decimal.Layout
import SkyCatalog.Json.Value

/-!
# Writing JSON

A value is written on one line without blanks (`compact`) or over several lines,
two blanks to a level (`pretty`). Both write the fields in the order they are
listed in.
-/

namespace SkyCatalog.Json

/-- Doubles between `10 ^ -5` and `10 ^ 16` stand in place and always have a point. -/
def numberLayout : Decimal.Layout where
  inPlace := fun e => -5 ≤ e && e < 16
  keepsFraction := true
  tie := .toEven

/-- A hexadecimal digit in lower case. -/
def hexDigit (n : Nat) : Char :=
  Nat.digitChar (n % 16)

/-- The written form of a character inside a text. -/
def escape (c : Char) : List Char :=
  if c = '"' then ['\\', '"']
  else if c = '\\' then ['\\', '\\']
  else if c = '\n' then ['\\', 'n']
  else if c = '\r' then ['\\', 'r']
  else if c = '\t' then ['\\', 't']
  else if c = '\x08' then ['\\', 'b']
  else if c = '\x0c' then ['\\', 'f']
  else if c.toNat < 0x20 then ['\\', 'u', '0', '0', hexDigit (c.toNat / 16), hexDigit c.toNat]
  else [c]

/-- The written form of a text. -/
def quoted (s : String) : String :=
  String.ofList ('"' :: (s.toList.flatMap escape ++ ['"']))

/-- The written form of a value that holds no other values. -/
def scalar : Json → String
  | .null => "null"
  | .bool true => "true"
  | .bool false => "false"
  | .int n => toString n
  | .real x => numberLayout.render x
  | .text s => quoted s
  | .array _ => "[]"
  | .object _ => "\x7b\x7d"

mutual

/-- The written form on one line. -/
def compact : Json → String
  | .array items => "[" ++ compactItems items ++ "]"
  | .object fields => "\x7b" ++ compactFields fields ++ "\x7d"
  | other => scalar other

/-- Items with commas between them. -/
def compactItems : List Json → String
  | [] => ""
  | [item] => compact item
  | item :: next :: rest => compact item ++ "," ++ compactItems (next :: rest)

/-- Fields with commas between them. -/
def compactFields : List (String × Json) → String
  | [] => ""
  | [(name, value)] => quoted name ++ ":" ++ compact value
  | (name, value) :: next :: rest =>
      quoted name ++ ":" ++ compact value ++ "," ++ compactFields (next :: rest)

end

/-- The start of a line at a level. -/
def newline (level : Nat) : String :=
  String.ofList ('\n' :: List.replicate (2 * level) ' ')

mutual

/-- The written form over several lines, from the given level on. -/
def prettyAt (level : Nat) : Json → String
  | .array (item :: rest) =>
      "[" ++ newline (level + 1) ++ prettyItems (level + 1) (item :: rest) ++ newline level ++ "]"
  | .object (field :: rest) =>
      "\x7b" ++ newline (level + 1) ++ prettyFields (level + 1) (field :: rest) ++
        newline level ++ "\x7d"
  | other => scalar other

/-- Items, one a line. -/
def prettyItems (level : Nat) : List Json → String
  | [] => ""
  | [item] => prettyAt level item
  | item :: next :: rest =>
      prettyAt level item ++ "," ++ newline level ++ prettyItems level (next :: rest)

/-- Fields, one a line. -/
def prettyFields (level : Nat) : List (String × Json) → String
  | [] => ""
  | [(name, value)] => quoted name ++ ": " ++ prettyAt level value
  | (name, value) :: next :: rest =>
      quoted name ++ ": " ++ prettyAt level value ++ "," ++ newline level ++
        prettyFields level (next :: rest)

end

/-- The written form over several lines. -/
def pretty (value : Json) : String :=
  prettyAt 0 value

end SkyCatalog.Json
