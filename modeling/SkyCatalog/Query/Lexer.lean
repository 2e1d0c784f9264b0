import SkyCatalog.Query.Fault

/-!
# Reading lexemes

At each place of an expression at most one lexeme can start: a parenthesis, an
operator in any case, or a condition. A condition is a criterion and a colon,
followed either by a quoted text without quotes or by the longest run of bare
characters. Between lexemes only space, tab, carriage return and line feed are
passed over.

`front?` reads the lexeme that starts at the front of a text and `front?_split`
says that it takes a non-empty part off the front and changes nothing. `scan`
repeats it until the text ends or no lexeme starts; the lexemes read before a
fault are kept.
-/

namespace SkyCatalog.Query

/-- The four characters that separate lexemes. -/
def isGap (c : Char) : Bool :=
  c == ' ' || c == '\t' || c == '\r' || c == '\n'

/-- A character of a bare value. -/
def isBare (c : Char) : Bool :=
  !(isGap c || c == '(' || c == ')' || c == '"')

/-- The written text, its meaning and what follows it. -/
structure Reading (α : Type) where
  text : List Char
  meaning : α
  rest : List Char

/-- Read a word of lower-case letters in any case. -/
def wordAt? (word cs : List Char) : Option (Reading Unit) :=
  let text := cs.take word.length
  if text.map Char.toLower = word then some ⟨text, (), cs.drop word.length⟩ else none

/-- Read an operator. -/
def operatorAt? (cs : List Char) : Option (Reading Operator) :=
  match wordAt? Operator.and.word cs with
  | some r => some ⟨r.text, .and, r.rest⟩
  | none => (wordAt? Operator.or.word cs).map fun r => ⟨r.text, .or, r.rest⟩

/-- Read the value of a condition; quotes around it are not part of its meaning. -/
def valueAt? : List Char → Option (Reading (List Char))
  | '"' :: rest =>
      let body := rest.takeWhile (· ≠ '"')
      match rest.dropWhile (· ≠ '"') with
      | [] => none
      | close :: after => some ⟨'"' :: (body ++ [close]), body, after⟩
  | cs =>
      let run := cs.takeWhile isBare
      if run.isEmpty then none else some ⟨run, run, cs.dropWhile isBare⟩

/-- The word of a criterion with its colon. -/
def Criterion.opening (c : Criterion) : List Char :=
  (c.word ++ ":").toList

/-- The criterion that a text opens with, and what follows its colon. -/
def criterionAt? (cs : List Char) : Option (Criterion × List Char) :=
  Criterion.all.findSome? fun c =>
    if c.opening.isPrefixOf cs then some (c, cs.drop c.opening.length) else none

/-- Read a condition. -/
def conditionAt? (cs : List Char) : Option (Reading Condition) :=
  match criterionAt? cs with
  | none => none
  | some (criterion, after) =>
      (valueAt? after).map fun r =>
        ⟨criterion.opening ++ r.text, ⟨criterion, String.ofList r.meaning⟩, r.rest⟩

/-- Read the lexeme that starts at the front of a text. -/
def front? : List Char → Option (Reading Token)
  | '(' :: rest => some ⟨['('], .leftParen, rest⟩
  | ')' :: rest => some ⟨[')'], .rightParen, rest⟩
  | cs =>
      match operatorAt? cs with
      | some r => some ⟨r.text, .operator r.meaning, r.rest⟩
      | none => (conditionAt? cs).map fun r => ⟨r.text, .condition r.meaning, r.rest⟩

/-! ## A reading takes a part off the front -/

/-- A reading splits the text it was made from, and is not empty. -/
def Reading.Splits {α : Type} (r : Reading α) (cs : List Char) : Prop :=
  r.text ++ r.rest = cs ∧ r.text ≠ []

theorem wordAt?_split {word cs : List Char} {r : Reading Unit} (hword : word ≠ [])
    (h : wordAt? word cs = some r) : r.Splits cs := by
  simp only [wordAt?] at h
  split at h
  · next heq =>
    cases h
    refine ⟨List.take_append_drop _ _, fun hnil => ?_⟩
    simp only at hnil
    rw [hnil] at heq
    exact hword heq.symm
  · cases h

theorem operatorAt?_split {cs : List Char} {r : Reading Operator}
    (h : operatorAt? cs = some r) : r.Splits cs := by
  unfold operatorAt? at h
  split at h
  · next w hw =>
    cases h
    exact wordAt?_split (by simp [Operator.word]) hw
  · next hw =>
    obtain ⟨w, hor, rfl⟩ := Option.map_eq_some_iff.mp h
    exact wordAt?_split (by simp [Operator.word]) hor

theorem valueAt?_split {cs : List Char} {r : Reading (List Char)}
    (h : valueAt? cs = some r) : r.text ++ r.rest = cs := by
  unfold valueAt? at h
  split at h
  · next rest =>
    simp only at h
    split at h
    · cases h
    · next close after hclose =>
      cases h
      have hsplit := List.takeWhile_append_dropWhile (p := (· ≠ '"')) (l := rest)
      rw [hclose] at hsplit
      simpa using hsplit
  · simp only at h
    split at h
    · cases h
    · cases h
      exact List.takeWhile_append_dropWhile

theorem criterionAt?_split {cs after : List Char} {c : Criterion}
    (h : criterionAt? cs = some (c, after)) : c.opening ++ after = cs := by
  unfold criterionAt? at h
  obtain ⟨d, hd, hsome⟩ := List.exists_of_findSome?_eq_some h
  split at hsome
  · next hprefix =>
    cases hsome
    obtain ⟨tail, rfl⟩ := List.isPrefixOf_iff_prefix.mp hprefix
    simp
  · cases hsome

theorem conditionAt?_split {cs : List Char} {r : Reading Condition}
    (h : conditionAt? cs = some r) : r.Splits cs := by
  unfold conditionAt? at h
  split at h
  · cases h
  · next criterion after hcriterion =>
    obtain ⟨v, hv, rfl⟩ := Option.map_eq_some_iff.mp h
    refine ⟨?_, ?_⟩
    · simp [List.append_assoc, valueAt?_split hv, criterionAt?_split hcriterion]
    · cases criterion <;> simp [Criterion.opening, Criterion.word]

/-- The lexeme at the front is a non-empty part of the text. -/
theorem front?_split {cs : List Char} {r : Reading Token} (h : front? cs = some r) :
    r.Splits cs := by
  unfold front? at h
  split at h
  · cases h
    exact ⟨rfl, by simp⟩
  · cases h
    exact ⟨rfl, by simp⟩
  · split at h
    · next w hw =>
      cases h
      exact operatorAt?_split hw
    · obtain ⟨w, hw, rfl⟩ := Option.map_eq_some_iff.mp h
      exact conditionAt?_split hw

theorem Reading.Splits.rest_lt {α : Type} {r : Reading α} {cs : List Char}
    (h : r.Splits cs) : r.rest.length < cs.length := by
  have hpos := List.length_pos_iff.mpr h.2
  have hlen := congrArg List.length h.1
  simp at hlen
  omega

/-! ## The whole text -/

/-- The part of a text that is at fault where no lexeme starts: a condition whose
quote is never closed takes the whole text with it, anything else one character. -/
def refusedPart (cs : List Char) : List Char :=
  match criterionAt? cs with
  | some (_, '"' :: _) => cs
  | _ => cs.take 1

/-- The lexemes read, and the fault that ended the reading, if any. -/
structure Scan where
  lexemes : List Lexeme
  failure : Option ParseError
deriving DecidableEq, Repr

/-- An operator counts only if a blank follows it. -/
def spacingFault? (token : Token) (rest : List Char) : Option Fault :=
  match token with
  | .operator op =>
      if (rest.head?.map Text.isBlank).getD false then none else some (.operatorNotSpaced op)
  | _ => none

/-- Read a text that stands `offset` bytes into the expression. -/
def scanFrom (offset : Nat) (cs : List Char) : Scan :=
  match cs with
  | [] => ⟨[], none⟩
  | c :: tail =>
      if isGap c then scanFrom (offset + c.utf8Size) tail
      else
        match _h : front? (c :: tail) with
        | none =>
            let stop := offset + Text.byteLength (refusedPart (c :: tail))
            ⟨[], some ⟨.unexpectedInput c, ⟨offset, stop⟩⟩⟩
        | some r =>
            let span : Span := ⟨offset, offset + Text.byteLength r.text⟩
            match spacingFault? r.meaning r.rest with
            | some fault => ⟨[], some ⟨fault, span⟩⟩
            | none =>
                let after := scanFrom span.stop r.rest
                ⟨⟨r.meaning, span⟩ :: after.lexemes, after.failure⟩
termination_by cs.length
decreasing_by
  · simp
  · exact (front?_split _h).rest_lt

/-- Read the lexemes of an expression. -/
def scan (source : String) : Scan :=
  scanFrom 0 source.toList

/-- The lexemes of an expression, or the fault at which the reading ended. -/
def tokenize (source : String) : Except ParseError (List Lexeme) :=
  match (scan source).failure with
  | some e => .error e
  | none => .ok (scan source).lexemes

end SkyCatalog.Query
