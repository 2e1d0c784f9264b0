import Mathlib.Data.List.TakeWhile
import SkyCatalog.Query.Expr
import SkyCatalog.Query.Lexer

/-!
# Scanning step by step

A scan passes over a gap (`scanFrom_gap`) and puts the lexeme at the front before what the
rest yields (`scanFrom_front`). The written form of a value without quotes is read back wherever
no bare character follows it (`valueAt?_written`): what is written bare holds no character that
ends a bare value, and what is written in quotes holds none. A value that is read never holds a
quote (`notMem_quote_of_valueAt?`).
-/

namespace SkyCatalog.Query

/-- Lexemes put before those of a scan. -/
def Scan.prepend (front : List Lexeme) (s : Scan) : Scan :=
  ⟨front ++ s.lexemes, s.failure⟩

@[simp] theorem Scan.prepend_prepend (a b : List Lexeme) (s : Scan) :
    (s.prepend b).prepend a = s.prepend (a ++ b) := by
  simp [Scan.prepend]

@[simp] theorem Scan.prepend_nil (front : List Lexeme) (failure : Option ParseError) :
    Scan.prepend front ⟨[], failure⟩ = ⟨front, failure⟩ := by
  simp [Scan.prepend]

theorem scanFrom_nil (offset : Nat) : scanFrom offset [] = ⟨[], none⟩ := by
  rw [scanFrom]

theorem scanFrom_gap (offset : Nat) {c : Char} (h : isGap c = true) (rest : List Char) :
    scanFrom offset (c :: rest) = scanFrom (offset + c.utf8Size) rest := by
  rw [scanFrom, if_pos h]

theorem scanFrom_front (offset : Nat) {c : Char} {rest text after : List Char} {token : Token}
    (hgap : isGap c = false) (hfront : front? (c :: rest) = some ⟨text, token, after⟩)
    (hspacing : spacingFault? token after = none) :
    scanFrom offset (c :: rest) =
      (scanFrom (offset + Text.byteLength text) after).prepend
        [⟨token, ⟨offset, offset + Text.byteLength text⟩⟩] := by
  rw [scanFrom, if_neg (by simp [hgap])]
  split
  · next hnone => simp [hnone] at hfront
  · next r hr =>
    cases hfront.symm.trans hr
    simp [hspacing, Scan.prepend]

/-! ## The written form of a condition -/

/-- No bare character stands at the front. -/
def Delimited (cs : List Char) : Prop :=
  ∀ c ∈ cs.head?, isBare c = false

theorem delimited_cons {c : Char} (h : isBare c = false) (rest : List Char) :
    Delimited (c :: rest) := by
  rintro _ ⟨⟩
  exact h

/-- A value as it is written: bare, or in quotes. -/
def writtenValue (value : List Char) : List Char :=
  if !value.isEmpty && !value.any needsQuotes then value else '"' :: (value ++ ['"'])

theorem toList_text (c : Condition) :
    c.text.toList = c.criterion.opening ++ writtenValue c.value.toList := by
  unfold Condition.text writtenValue
  simp only []
  split <;> simp [Criterion.opening, String.toList_append]

theorem isBlank_of_isGap {c : Char} (h : isGap c = true) : Text.isBlank c = true := by
  simp only [isGap, Bool.or_eq_true, beq_iff_eq] at h
  rcases h with ((rfl | rfl) | rfl) | rfl <;> rfl

theorem isBare_of_not_needsQuotes {c : Char} (h : needsQuotes c = false) : isBare c = true := by
  simp only [needsQuotes, Bool.or_eq_false_iff] at h
  have hgap : isGap c = false :=
    Bool.eq_false_iff.mpr fun hgap => by simp [isBlank_of_isGap hgap] at h
  simp [isBare, hgap, h]

theorem takeWhile_append_of_delimited {p : Char → Bool} {front rest : List Char}
    (hfront : ∀ c ∈ front, p c = true) (hrest : ∀ c ∈ rest.head?, p c = false) :
    (front ++ rest).takeWhile p = front ∧ (front ++ rest).dropWhile p = rest := by
  rw [List.takeWhile_append_of_pos hfront, List.dropWhile_append_of_pos hfront]
  cases rest with
  | nil => simp
  | cons c rest =>
      have hc : ¬p c = true := by simp [hrest c rfl]
      simp [List.takeWhile_cons_of_neg hc, List.dropWhile_cons_of_neg hc]

theorem valueAt?_quoted {value : List Char} (hvalue : '"' ∉ value) (rest : List Char) :
    valueAt? ('"' :: (value ++ '"' :: rest)) =
      some ⟨'"' :: (value ++ ['"']), value, rest⟩ := by
  have hbody : ∀ c ∈ value, decide (c ≠ '"') = true := fun c hc => by
    have hne : c ≠ '"' := fun h => hvalue (h ▸ hc)
    simpa using hne
  have hclose : ∀ c ∈ ('"' :: rest).head?, decide (c ≠ '"') = false := by simp
  obtain ⟨htake, hdrop⟩ := takeWhile_append_of_delimited hbody hclose
  simp only [valueAt?, htake, hdrop]

theorem valueAt?_bare {value rest : List Char} (hne : value ≠ [])
    (hvalue : ∀ c ∈ value, isBare c = true) (hrest : Delimited rest) :
    valueAt? (value ++ rest) = some ⟨value, value, rest⟩ := by
  obtain ⟨htake, hdrop⟩ := takeWhile_append_of_delimited hvalue hrest
  obtain ⟨c, tail, rfl⟩ := List.exists_cons_of_ne_nil hne
  have hc : c ≠ '"' := fun h => by
    have hbare := hvalue c List.mem_cons_self
    rw [h] at hbare
    cases hbare
  rw [List.cons_append] at htake hdrop ⊢
  rw [valueAt?.eq_2 _ (fun quoted h => hc (List.cons.inj h).1), htake, hdrop]
  rfl

theorem valueAt?_written {value rest : List Char} (hvalue : '"' ∉ value)
    (hrest : Delimited rest) :
    valueAt? (writtenValue value ++ rest) = some ⟨writtenValue value, value, rest⟩ := by
  unfold writtenValue
  split
  · next hbare =>
    simp only [Bool.and_eq_true, Bool.not_eq_true', List.isEmpty_eq_false_iff,
      List.any_eq_false] at hbare
    exact valueAt?_bare hbare.1
      (fun c hc => isBare_of_not_needsQuotes (by simpa using hbare.2 c hc)) hrest
  · simpa using valueAt?_quoted hvalue rest

/-- What opens with a criterion is a condition if a value follows. -/
theorem front?_opening (criterion : Criterion) (after : List Char) :
    front? (criterion.opening ++ after) = (valueAt? after).map fun r =>
      ⟨criterion.opening ++ r.text, .condition ⟨criterion, String.ofList r.meaning⟩, r.rest⟩ := by
  have hcriterion : criterionAt? (criterion.opening ++ after) = some (criterion, after) := by
    cases criterion <;> rfl
  have hoperator : operatorAt? (criterion.opening ++ after) = none := by
    cases criterion <;> rfl
  have hfront : front? (criterion.opening ++ after) =
      (conditionAt? (criterion.opening ++ after)).map fun r =>
        ⟨r.text, .condition r.meaning, r.rest⟩ := by
    cases criterion <;> simp only [front?.eq_def] <;> rfl
  rw [hfront, conditionAt?, hcriterion]
  simp only [Option.map_map]
  rfl

/-! ## Values that are read -/

theorem notMem_quote_of_valueAt? {cs : List Char} {r : Reading (List Char)}
    (h : valueAt? cs = some r) : '"' ∉ r.meaning := by
  unfold valueAt? at h
  split at h
  · simp only at h
    split at h
    · cases h
    · cases h
      exact fun hmem => by simpa using List.mem_takeWhile_imp hmem
  · simp only at h
    split at h
    · cases h
    · cases h
      exact fun hmem => by simpa [isBare] using List.mem_takeWhile_imp hmem

end SkyCatalog.Query
