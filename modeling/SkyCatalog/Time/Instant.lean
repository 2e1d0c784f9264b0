import SkyCatalog.Text.Blank
import SkyCatalog.Decimal.Reading
import SkyCatalog.Json.Decode
import SkyCatalog.Time.Calendar

/-!
# Instants

An instant is a second of universal time and the nanoseconds into it. A leap second
is the continuation of the second before it: its nanoseconds run on beyond one
thousand million.

The written form is a date, a time of day and an offset. The reader takes more than
the writer gives: blanks before each part, fields of a single digit, a blank in place
of the `T`, years with a sign, and several spellings of the offset.
-/

namespace SkyCatalog.Time

/-- A moment: seconds since the beginning of 1970 and nanoseconds into the second. -/
structure Instant where
  seconds : Int
  nanoseconds : Nat
deriving DecidableEq, Repr

/-- The nanoseconds of a second. -/
def nanosPerSecond : Nat := 1000000000

/-- The seconds of a day. -/
def secondsPerDay : Nat := 86400

namespace Instant

/-- Is an instant no later than another? -/
def notAfter (a b : Instant) : Bool :=
  a.seconds < b.seconds || (a.seconds == b.seconds && a.nanoseconds ≤ b.nanoseconds)

/-- The instant some seconds later. -/
def later (i : Instant) (seconds : Nat) : Instant :=
  ⟨i.seconds + seconds, i.nanoseconds⟩

/-! ## Writing -/

/-- A number with at least the given count of digits. -/
def padded (width n : Nat) : String :=
  let digits := Nat.toDigits 10 n
  String.ofList (List.replicate (width - digits.length) '0' ++ digits)

/-- A year. One that does not have four digits carries a sign. -/
def yearText (year : Int) : String :=
  if 0 ≤ year ∧ year ≤ 9999 then padded 4 year.toNat
  else (if year < 0 then "-" else "+") ++ padded 4 year.natAbs

/-- The fraction of a second: nothing, or three, six or nine digits. -/
def fractionText (nanoseconds : Nat) : String :=
  if nanoseconds = 0 then ""
  else if nanoseconds % 1000000 = 0 then "." ++ padded 3 (nanoseconds / 1000000)
  else if nanoseconds % 1000 = 0 then "." ++ padded 6 (nanoseconds / 1000)
  else "." ++ padded 9 nanoseconds

/-- The written form in universal time. A leap second is the second number sixty. -/
def text (i : Instant) : String :=
  let days := i.seconds.fdiv secondsPerDay
  let ofDay := (i.seconds - days * secondsPerDay).toNat
  let date := Date.ofDays days
  let isLeap := nanosPerSecond ≤ i.nanoseconds
  let second := if isLeap then ofDay % 60 + 1 else ofDay % 60
  let nanoseconds := if isLeap then i.nanoseconds - nanosPerSecond else i.nanoseconds
  yearText date.year ++ "-" ++ padded 2 date.month ++ "-" ++ padded 2 date.day ++ "T" ++
    padded 2 (ofDay / 3600) ++ ":" ++ padded 2 (ofDay / 60 % 60) ++ ":" ++ padded 2 second ++
    fractionText nanoseconds ++ "Z"

/-- The JSON form. -/
def toJson (i : Instant) : Json :=
  .text i.text

end Instant

/-! ## Reading

A reader gives the part that it read together with the characters after it. -/

/-- Drop blanks. -/
def skipBlanks (cs : List Char) : List Char :=
  cs.dropWhile Text.isBlank

/-- Read up to `most` digits, at least one. -/
def digits? (most : Nat) (cs : List Char) : Option (Nat × List Char) :=
  let run := (cs.takeWhile Char.isDigit).take most
  if run.isEmpty then none else some (Decimal.ofDigits run, cs.drop run.length)

/-- Read a character that must stand next. -/
def mark? (c : Char) (cs : List Char) : Option (Unit × List Char) :=
  match cs with
  | d :: rest => if d = c then some ((), rest) else none
  | [] => none

/-- Read a number of one or two digits within bounds, after blanks. -/
def field? (low high : Nat) (cs : List Char) : Option (Nat × List Char) := do
  let (n, rest) ← digits? 2 (skipBlanks cs)
  if low ≤ n ∧ n ≤ high then return (n, rest) else none

/-- Read a year, after blanks: up to four digits, or a sign and any number of them. -/
def year? (cs : List Char) : Option (Int × List Char) := do
  match skipBlanks cs with
  | '-' :: rest =>
      let (n, rest) ← digits? rest.length rest
      return (-n, rest)
  | '+' :: rest =>
      let (n, rest) ← digits? rest.length rest
      return (n, rest)
  | other =>
      let (n, rest) ← digits? 4 other
      return (n, rest)

/-- The years that an instant may lie in. -/
def inReach (year : Int) : Bool :=
  -262143 ≤ year && year ≤ 262142

/-- Read a date that exists. -/
def date? (cs : List Char) : Option (Date × List Char) := do
  let (year, cs) ← year? cs
  let (_, cs) ← mark? '-' (skipBlanks cs)
  let (month, cs) ← field? 1 12 cs
  let (_, cs) ← mark? '-' (skipBlanks cs)
  let (day, cs) ← field? 1 31 cs
  if inReach year && Date.isValid ⟨year, month, day⟩ then return (⟨year, month, day⟩, cs)
  else none

/-- Read what stands between the date and the time of day. -/
def separator? (cs : List Char) : Option (Unit × List Char) :=
  match cs with
  | c :: rest => if c = 'T' ∨ c = 't' ∨ c = ' ' then some ((), rest) else none
  | [] => none

/-- Read a fraction of a second, if there is one. Digits after the ninth are dropped. -/
def fraction? (cs : List Char) : Option (Nat × List Char) :=
  match cs with
  | '.' :: rest =>
      let run := rest.takeWhile Char.isDigit
      let kept := run.take 9
      if run.isEmpty then none
      else some (Decimal.ofDigits kept * Nat.pow 10 (9 - kept.length), rest.drop run.length)
  | _ => some (0, cs)

/-- Read a time of day: its second and the nanoseconds into it. A second sixty is a
leap second. -/
def timeOfDay? (cs : List Char) : Option ((Nat × Nat) × List Char) := do
  let (hour, cs) ← field? 0 23 cs
  let (_, cs) ← mark? ':' (skipBlanks cs)
  let (minute, cs) ← field? 0 59 cs
  let (_, cs) ← mark? ':' (skipBlanks cs)
  let (second, cs) ← field? 0 60 cs
  let (nanoseconds, cs) ← fraction? cs
  let start := hour * 3600 + minute * 60
  if second = 60 then return ((start + 59, nanosPerSecond + nanoseconds), cs)
  else return ((start + second, nanoseconds), cs)

/-- Read two digits. -/
def twoDigits? (cs : List Char) : Option (Nat × List Char) :=
  match cs with
  | a :: b :: rest =>
      if a.isDigit && b.isDigit then some (Decimal.ofDigits [a, b], rest) else none
  | _ => none

/-- Read an offset of hours and minutes after its sign, in seconds. -/
def offsetSeconds? (cs : List Char) : Option (Nat × List Char) := do
  let (hours, cs) ← twoDigits? cs
  let (minutes, cs) ← twoDigits? (cs.dropWhile fun c => c = ':' || Text.isBlank c)
  if minutes < 60 then return (hours * 3600 + minutes * 60, cs) else none

/-- Read an offset from universal time, in seconds. -/
def offset? (cs : List Char) : Option (Int × List Char) :=
  if (cs.take 3).map Char.toUpper = ['U', 'T', 'C'] then some (0, cs.drop 3)
  else
    match cs with
    | c :: rest =>
        if c = 'Z' ∨ c = 'z' then some (0, rest)
        else if c = '+' then (offsetSeconds? rest).map fun r => ((r.1 : Int), r.2)
        else if c = '-' ∨ c = '−' then (offsetSeconds? rest).map fun r => (-(r.1 : Int), r.2)
        else none
    | [] => none

/-- The last second that an instant may have, and the first. -/
def lastSecond : Int := (Date.toDays ⟨262142, 12, 31⟩ + 1) * secondsPerDay - 1

@[inherit_doc lastSecond]
def firstSecond : Int := Date.toDays ⟨-262143, 1, 1⟩ * secondsPerDay

namespace Instant

/-- Read an instant. -/
def read? (s : String) : Option Instant := do
  let (date, cs) ← date? s.toList
  let (_, cs) ← separator? cs
  let ((second, nanoseconds), cs) ← timeOfDay? cs
  let (offset, cs) ← offset? (skipBlanks cs)
  if !(skipBlanks cs).isEmpty then none
  let seconds := date.toDays * secondsPerDay + second - offset
  if offset.natAbs < secondsPerDay ∧ firstSecond ≤ seconds ∧ seconds ≤ lastSecond then
    return ⟨seconds, nanoseconds⟩
  else none

/-- Read an instant from JSON. -/
def ofWritten? (value : Written) : Option Instant :=
  value.toText? >>= read?

end Instant

end SkyCatalog.Time
