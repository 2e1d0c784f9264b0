import SkyCatalog.Json.Number
import SkyCatalog.Json.Written

/-!
# Reading JSON

A text is cut into tokens, and the tokens are folded over a stack of open arrays
and objects. Fields are kept as they are written, repeated names included;
`Json.tidy` gives the value they stand for.

A text that is not well formed is refused as a whole. Parts that are well formed and
denote nothing become void, among them arrays and objects inside 127 others.
-/

namespace SkyCatalog

namespace Json

/-! ## Tokens -/

/-- The tokens of a JSON text. -/
inductive Token where
  | openArray
  | closeArray
  | openObject
  | closeObject
  | comma
  | colon
  /-- A text in quotes, with what it denotes. -/
  | text (content : Option String)
  /-- Any other value without parts. -/
  | scalar (value : Written)

/-- The value of a hexadecimal digit. -/
def hexValue? (c : Char) : Option Nat :=
  if c.isDigit then some (c.toNat - '0'.toNat)
  else if 'a' ≤ c ∧ c ≤ 'f' then some (c.toNat - 'a'.toNat + 10)
  else if 'A' ≤ c ∧ c ≤ 'F' then some (c.toNat - 'A'.toNat + 10)
  else none

/-- The value of four hexadecimal digits. -/
def hexValue4? (a b c d : Char) : Option Nat := do
  let a ← hexValue? a
  let b ← hexValue? b
  let c ← hexValue? c
  let d ← hexValue? d
  return ((a * 16 + b) * 16 + c) * 16 + d

/-- The character that an escape of one letter stands for. -/
def unescape? (c : Char) : Option Char :=
  match c with
  | '"' => some '"'
  | '\\' => some '\\'
  | '/' => some '/'
  | 'b' => some '\x08'
  | 'f' => some '\x0c'
  | 'n' => some '\n'
  | 'r' => some '\r'
  | 't' => some '\t'
  | _ => none

/-- A piece of a text in quotes. -/
inductive Piece where
  | char (c : Char)
  /-- Half of a surrogate pair. -/
  | half (unit : Nat)
deriving DecidableEq, Repr

/-- The piece that an escaped number stands for. -/
def Piece.ofUnit (unit : Nat) : Piece :=
  if unit < 0xD800 ∨ 0xDFFF < unit then .char (Char.ofNat unit) else .half unit

/-- Put a piece before those that were read. -/
def pushPiece (p : Piece) (r : List Piece × List Char) : List Piece × List Char :=
  (p :: r.1, r.2)

/-- Read the pieces of a text after its opening quote. Control characters must be
escaped. -/
def piecesAt? : List Char → Option (List Piece × List Char)
  | [] => none
  | '"' :: rest => some ([], rest)
  | '\\' :: 'u' :: a :: b :: c :: d :: rest =>
      match hexValue4? a b c d with
      | none => none
      | some unit => (piecesAt? rest).map (pushPiece (.ofUnit unit))
  | '\\' :: letter :: rest =>
      match unescape? letter with
      | none => none
      | some c => (piecesAt? rest).map (pushPiece (.char c))
  | c :: rest =>
      if c.toNat < 0x20 ∨ c = '\\' then none else (piecesAt? rest).map (pushPiece (.char c))

/-- The characters that pieces denote. The halves of a surrogate pair must come
together, the high one first. -/
def joinPieces? : List Piece → Option (List Char)
  | [] => some []
  | .char c :: rest => (joinPieces? rest).map (c :: ·)
  | .half high :: .half low :: rest =>
      if high < 0xDC00 ∧ 0xDC00 ≤ low then
        let code := 0x10000 + (high - 0xD800) * 0x400 + (low - 0xDC00)
        (joinPieces? rest).map (Char.ofNat code :: ·)
      else none
  | .half _ :: _ => none

/-- The text that pieces denote. -/
def contentOf? (pieces : List Piece) : Option String :=
  (joinPieces? pieces).map String.ofList

/-- The four characters that may stand between tokens. -/
def isSpace (c : Char) : Bool :=
  c == ' ' || c == '\n' || c == '\t' || c == '\r'

/-- Read the token that starts at the front of a text. -/
def tokenAt? : List Char → Option (Token × List Char)
  | '[' :: rest => some (.openArray, rest)
  | ']' :: rest => some (.closeArray, rest)
  | '\x7b' :: rest => some (.openObject, rest)
  | '\x7d' :: rest => some (.closeObject, rest)
  | ',' :: rest => some (.comma, rest)
  | ':' :: rest => some (.colon, rest)
  | '"' :: rest => (piecesAt? rest).map fun r => (.text (contentOf? r.1), r.2)
  | 'n' :: 'u' :: 'l' :: 'l' :: rest => some (.scalar .null, rest)
  | 't' :: 'r' :: 'u' :: 'e' :: rest => some (.scalar (.bool true), rest)
  | 'f' :: 'a' :: 'l' :: 's' :: 'e' :: rest => some (.scalar (.bool false), rest)
  | cs => (numeralAt? cs).map fun r => (.scalar (.ofOption r.1.toJson?), r.2)

/-- The tokens of a text; `budget` bounds their number. -/
def tokensWithin? : Nat → List Char → Option (List Token)
  | budget, cs =>
      match cs.dropWhile isSpace with
      | [] => some []
      | c :: rest =>
          match budget with
          | 0 => none
          | budget + 1 =>
              match tokenAt? (c :: rest) with
              | none => none
              | some (token, after) => (tokensWithin? budget after).map (token :: ·)

/-- The tokens of a text. A token takes at least one character. -/
def tokens? (cs : List Char) : Option (List Token) :=
  tokensWithin? cs.length cs

/-! ## Values -/

/-- A field that was read: its name, if that denotes something, and its value. -/
abbrev ReadField := Option String × Written

/-- An open array or object. What it holds so far is listed from the last; an object
also has the name that the next value belongs to. -/
inductive Frame where
  | array (items : List Written)
  | object (fields : List ReadField) (name : Option String)

/-- What may come next. -/
inductive Expect where
  | value
  | valueOrClose
  | name
  | nameOrClose
  | colon
  | separator
  | finish (value : Written)

/-- The open arrays and objects, the innermost first, and what may come next. -/
structure State where
  frames : List Frame
  expect : Expect

namespace State

/-- The deepest nesting of arrays and objects that denote something. -/
def maxDepth : Nat := 127

/-- A finished value goes into the innermost frame. -/
def place (value : Written) : List Frame → State
  | [] => ⟨[], .finish value⟩
  | .array items :: outer => ⟨.array (value :: items) :: outer, .separator⟩
  | .object fields name :: outer =>
      ⟨.object ((name, value) :: fields) none :: outer, .separator⟩

/-- A value starts. -/
def start? (frames : List Frame) : Token → Option State
  | .text content => some (place (.ofOption (content.map .text)) frames)
  | .scalar value => some (place value frames)
  | .openArray => some ⟨.array [] :: frames, .valueOrClose⟩
  | .openObject => some ⟨.object [] none :: frames, .nameOrClose⟩
  | _ => none

/-- The object with these fields, listed from the last, if all their names denote
something. -/
def objectOf (fields : List ReadField) : Written :=
  match fields.reverse.mapM fun f => f.1.map fun name => (name, f.2) with
  | some fields => .object fields
  | none => .void

/-- Do so many frames leave no room for another? -/
def isFull (frames : List Frame) : Bool :=
  (frames[maxDepth - 1]?).isSome

/-- A finished array or object goes into the innermost frame, unless it lies too
deep. -/
def settle (value : Written) (outer : List Frame) : State :=
  place (if isFull outer then .void else value) outer

/-- The innermost frame is closed. -/
def close? : Token → List Frame → Option State
  | .closeArray, .array items :: outer => some (settle (.array items.reverse) outer)
  | .closeObject, .object fields _ :: outer => some (settle (objectOf fields) outer)
  | _, _ => none

/-- The name of the next field. -/
def name? : Token → List Frame → Option State
  | .text name, .object fields _ :: outer => some ⟨.object fields name :: outer, .colon⟩
  | _, _ => none

/-- Take in one token. -/
def step? (s : State) (t : Token) : Option State :=
  match s.expect with
  | .value => start? s.frames t
  | .valueOrClose => close? t s.frames <|> start? s.frames t
  | .name => name? t s.frames
  | .nameOrClose => close? t s.frames <|> name? t s.frames
  | .colon =>
      match t with
      | .colon => some ⟨s.frames, .value⟩
      | _ => none
  | .separator =>
      match t, s.frames with
      | .comma, .array _ :: _ => some ⟨s.frames, .value⟩
      | .comma, .object _ _ :: _ => some ⟨s.frames, .name⟩
      | _, frames => close? t frames
  | .finish _ => none

end State

end Json

/-- Read a JSON text: one value with nothing but space around it. -/
def Written.read? (source : String) : Option Written := do
  let tokens ← Json.tokens? source.toList
  let last ← tokens.foldlM Json.State.step? ⟨[], .value⟩
  match last.expect with
  | .finish value => some value
  | _ => none

/-- The value that a JSON text denotes. -/
def Json.read? (source : String) : Option Json :=
  Written.read? source >>= Written.value?

end SkyCatalog
